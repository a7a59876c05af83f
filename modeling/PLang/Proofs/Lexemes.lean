import PLang.Number.Binary64
import PLang.Token.Lexer

/-!
# The texts of number tokens

Every token of a source is a piece that one of the patterns cuts off. So the text of an integer
token is a run of digits, which denotes a 32-bit word exactly if its value is small enough, and the
text of a real token always denotes a number.
-/

namespace PLang

variable {digits lexeme rest text : List Char} {t : Token}

/-! ### Digits -/

/-- A non-empty run of digits. -/
def IsDigits (text : List Char) : Prop := text ≠ [] ∧ text.all Char.isDigit = true

theorem splitRun?_isDigits (h : splitRun? isDigit text = some (lexeme, rest)) :
    IsDigits lexeme := by
  have hne := (splitRun?_isCut h).1
  unfold splitRun? at h
  split at h
  · cases h
  · obtain ⟨rfl, rfl⟩ := Prod.mk.inj (Option.some.inj h)
    exact ⟨hne, List.all_takeWhile⟩

theorem IsDigits.cons_ne {c d : Char} (h : IsDigits (c :: text)) (hd : d.isDigit = false) :
    c ≠ d := by
  rintro rfl
  have hc := List.all_eq_true.1 h.2 c (.head _)
  rw [hd] at hc
  cases hc

theorem natural?_of_isDigits (h : IsDigits text) :
    natural? text = some (Nat.ofDigitChars 10 text 0) := by
  simp [natural?, digitsValue?, h.1, h.2]

/-- Digits without a sign denote what they denote as a natural. -/
theorem signed?_of_isDigits (h : IsDigits text) :
    signed? text = some (Int.ofNat (Nat.ofDigitChars 10 text 0)) := by
  have hnat := natural?_of_isDigits h
  unfold signed?
  split
  · exact absurd rfl (h.cons_ne rfl)
  · exact absurd rfl (h.cons_ne rfl)
  · rw [hnat]
    rfl

theorem signed?_append {sign : List Char} (hsign : sign = [] ∨ sign = ['+'] ∨ sign = ['-'])
    (h : IsDigits digits) : (signed? (sign ++ digits)).isSome := by
  have hnat := natural?_of_isDigits h
  rcases hsign with rfl | rfl | rfl
  · rw [List.nil_append, signed?_of_isDigits h]
    rfl
  · simp [signed?, hnat]
  · simp [signed?, hnat]

/-- A run of digits is a 32-bit word exactly if its value is at most the greatest one. -/
theorem wordOfText?_isSome_iff {text : String} (h : IsDigits text.toList) :
    (wordOfText? text).isSome ↔ Nat.ofDigitChars 10 text.toList 0 ≤ 0x7fffffff := by
  rw [wordOfText?, signed?_of_isDigits h, Option.isSome_filter]
  simp only [Option.any_some, fitsWord, Bool.and_eq_true, decide_eq_true_eq, Int.ofNat_eq_natCast]
  omega

theorem isDigits_toDigits (n : Nat) : IsDigits (Nat.toDigits 10 n) := by
  refine ⟨Nat.toDigits_ne_nil, List.all_eq_true.2 fun c hc => ?_⟩
  exact Nat.isDigit_of_mem_toDigits (by decide) (by decide) hc

/-- A natural is read back from its digits. -/
theorem wordOfText?_toString {n : Nat} (h : n ≤ 0x7fffffff) :
    wordOfText? (toString n) = some (n : Int) := by
  have htext : (toString n).toList = Nat.toDigits 10 n := by
    rw [Nat.toString_eq_ofList_toDigits, String.toList_ofList]
  have hsigned : signed? (toString n).toList = some (n : Int) := by
    rw [htext, signed?_of_isDigits (isDigits_toDigits n), Nat.ofDigitChars_ten_toDigits]
    rfl
  have hfits : fitsWord n = true := by
    simp only [fitsWord, Bool.and_eq_true, decide_eq_true_eq]
    omega
  rw [wordOfText?, hsigned, Option.filter_some, if_pos hfits]

/-! ### Real numbers -/

/-- Text that does not start with a digit. -/
def StartsApart (text : List Char) : Prop := ∀ c ∈ text.head?, c.isDigit = false

theorem IsDigits.takeWhile_append (h : IsDigits digits) (htext : StartsApart text) :
    (digits ++ text).takeWhile Char.isDigit = digits := by
  rw [List.takeWhile_append_of_pos (List.all_eq_true.1 h.2)]
  cases text with
  | nil => simp
  | cons c text => simp [htext c rfl]

theorem IsDigits.dropWhile_append (h : IsDigits digits) (htext : StartsApart text) :
    (digits ++ text).dropWhile Char.isDigit = text := by
  rw [List.dropWhile_append_of_pos (List.all_eq_true.1 h.2)]
  cases text with
  | nil => rfl
  | cons c text => simp [htext c rfl]

theorem splitSign_fst (text : List Char) :
    (splitSign text).1 = [] ∨ (splitSign text).1 = ['+'] ∨ (splitSign text).1 = ['-'] := by
  unfold splitSign
  split <;> simp

/-- An exponent that is cut off a text starts with its mark and has a value. -/
theorem exponent?_of_splitExponent? (h : splitExponent? text = some (lexeme, rest)) :
    (∃ mark digits, lexeme = mark :: digits ∧ (mark = 'e' ∨ mark = 'E')) ∧
      (Binary64.exponent? lexeme).isSome := by
  cases text with
  | nil => cases h
  | cons c text =>
    rw [splitExponent?] at h
    split at h
    · rename_i hmark
      obtain ⟨⟨digits, rest'⟩, hdigits, heq⟩ := Option.map_eq_some_iff.1 h
      obtain ⟨rfl, rfl⟩ := Prod.mk.inj heq
      refine ⟨⟨c, _, rfl, hmark⟩, ?_⟩
      rw [Binary64.exponent?, if_pos hmark]
      exact signed?_append (splitSign_fst text) (splitRun?_isDigits hdigits)
    · cases h

theorem startsApart_of_splitExponent? (h : splitExponent? text = some (lexeme, rest)) :
    StartsApart lexeme := by
  obtain ⟨⟨mark, digits, rfl, hmark⟩, -⟩ := exponent?_of_splitExponent? h
  intro c hc
  cases hc
  rcases hmark with rfl | rfl <;> rfl

/-- Digits with a fraction and an exponent behind them spell a decimal. -/
theorem decimal?_fraction {whole fraction exponent : List Char} (hwhole : IsDigits whole)
    (hfraction : IsDigits fraction) (hapart : StartsApart exponent)
    (hexponent : (Binary64.exponent? exponent).isSome) :
    (Binary64.decimal? (whole ++ '.' :: (fraction ++ exponent))).isSome := by
  have hpoint : StartsApart ('.' :: (fraction ++ exponent)) := by
    intro c hc
    cases hc
    rfl
  simp [Binary64.decimal?, hwhole.takeWhile_append hpoint, hwhole.dropWhile_append hpoint,
    hfraction.takeWhile_append hapart, hfraction.dropWhile_append hapart, hwhole.1, hexponent]

theorem decimal?_exponent {whole : List Char} (hwhole : IsDigits whole)
    (h : splitExponent? text = some (lexeme, rest)) :
    (Binary64.decimal? (whole ++ lexeme)).isSome := by
  have hapart := startsApart_of_splitExponent? h
  obtain ⟨⟨mark, digits, rfl, hmark⟩, hexponent⟩ := exponent?_of_splitExponent? h
  rcases hmark with rfl | rfl <;>
    simp [Binary64.decimal?, hwhole.takeWhile_append hapart, hwhole.dropWhile_append hapart,
      hwhole.1, hexponent]

theorem decimal?_of_splitReal? (h : splitReal? text = some (lexeme, rest)) :
    (Binary64.decimal? lexeme).isSome := by
  obtain ⟨⟨whole, rest1⟩, hrun, h⟩ := Option.bind_eq_some_iff.1 h
  obtain ⟨⟨end1, rest2⟩, hend, heq⟩ := Option.map_eq_some_iff.1 h
  obtain ⟨rfl, rfl⟩ := Prod.mk.inj heq
  have hwhole := splitRun?_isDigits hrun
  dsimp only at hend ⊢
  unfold splitRealEnd? at hend
  split at hend
  · obtain ⟨⟨fraction, rest3⟩, hfraction, heq⟩ := Option.map_eq_some_iff.1 hend
    have hdigits := splitRun?_isDigits hfraction
    split at heq
    · rename_i e hexponent
      obtain ⟨rfl, rfl⟩ := Prod.mk.inj heq
      exact decimal?_fraction hwhole hdigits (startsApart_of_splitExponent? hexponent)
        (exponent?_of_splitExponent? hexponent).2
    · obtain ⟨rfl, rfl⟩ := Prod.mk.inj heq
      have hbare : (Binary64.decimal? (whole ++ '.' :: (fraction ++ []))).isSome :=
        decimal?_fraction hwhole hdigits nofun rfl
      rwa [List.append_nil] at hbare
  · exact decimal?_exponent hwhole hend

/-- A text that starts with a digit has no sign, and what its decimal spells is its number. -/
theorem ofText?_isSome_of_decimal? {text : String} {c : Char} (htext : text.toList = c :: rest)
    (hc : c.isDigit = true) (h : (Binary64.decimal? text.toList).isSome) :
    (Binary64.ofText? text).isSome := by
  have hunsigned : (Binary64.ofUnsigned? false text.toList).isSome := by
    unfold Binary64.ofUnsigned?
    split
    · rfl
    · rw [Option.isSome_map]
      exact h
  unfold Binary64.ofText?
  split
  · rename_i heq
    rw [htext] at heq
    rw [(List.cons.inj heq).1] at hc
    cases hc
  · rename_i heq
    rw [htext] at heq
    rw [(List.cons.inj heq).1] at hc
    cases hc
  · exact hunsigned

theorem ofText?_of_splitReal? (h : splitReal? text = some (lexeme, rest)) :
    (Binary64.ofText? (String.ofList lexeme)).isSome := by
  obtain ⟨⟨whole, rest1⟩, hrun, hend⟩ := Option.bind_eq_some_iff.1 h
  obtain ⟨⟨end1, rest2⟩, -, heq⟩ := Option.map_eq_some_iff.1 hend
  have hwhole := splitRun?_isDigits hrun
  have hdecimal := decimal?_of_splitReal? h
  obtain ⟨rfl, -⟩ := Prod.mk.inj heq
  dsimp only at hdecimal ⊢
  cases whole with
  | nil => exact absurd rfl hwhole.1
  | cons c whole =>
    refine ofText?_isSome_of_decimal? (String.toList_ofList) ?_ (by rwa [String.toList_ofList])
    exact List.all_eq_true.1 hwhole.2 c (.head _)

/-! ### Tokens of a source -/

theorem eq_ok_of_toOption {ε α : Type} {x : Except ε α} {a : α} (h : x.toOption = some a) :
    x = .ok a := by
  cases x with
  | error e => cases h
  | ok b => rw [Option.some.inj h]

/-- The tokens of a source, if it can be read. -/
def tokensOf (source : String) : List Token := (tokenize source).toOption.getD []

/-- A source whose characters are known. They are slow to compute from its bytes. -/
theorem tokensOf_ofList (text : List Char) :
    tokensOf (String.ofList text) = (scan .start text).toOption.getD [] := by
  rw [tokensOf, tokenize, String.toList_ofList]

/-- A token with the kind and the text of some token of some source. -/
def Token.Lexed (t : Token) : Prop :=
  ∃ source ts, tokenize source = .ok ts ∧ ∃ u ∈ ts, u.kind = t.kind ∧ u.value = t.value

theorem Token.lexed_of_mem {source : String} (h : t ∈ tokensOf source) : t.Lexed := by
  rw [tokensOf] at h
  cases hok : tokenize source with
  | error e => rw [hok] at h; cases h
  | ok ts => exact ⟨source, ts, hok, t, by rwa [hok] at h, rfl, rfl⟩

/-- Every token but the last is a piece that a pattern cuts off. -/
theorem mem_scan {p : Position} {ts : List Token} (h : scan p text = .ok ts) (ht : t ∈ ts) :
    t.kind = .endOfFile ∨ ∃ pattern ∈ patterns,
      ∃ front lexeme rest, pattern.split? front = some (lexeme, rest) ∧
        pattern.token? lexeme = some (t.kind, t.value) := by
  fun_induction scan p text generalizing ts with
  | case1 p =>
    obtain rfl := Except.ok.inj h
    exact .inl (List.mem_singleton.1 ht ▸ rfl)
  | case2 => cases h
  | case3 => cases h
  | case4 p c tail piece hpiece _ tokens htokens hskip ih =>
    obtain rfl := Except.ok.inj h
    exact ih htokens ht
  | case5 p c tail piece hpiece _ tokens htokens kind value htoken ih =>
    obtain rfl := Except.ok.inj h
    rcases List.mem_cons.1 ht with rfl | ht
    · obtain ⟨pattern, hmem, hsplit⟩ := List.exists_of_findSome?_eq_some hpiece
      obtain ⟨s, hs, rfl⟩ := Option.map_eq_some_iff.1 hsplit
      exact .inr ⟨pattern, hmem, _, _, _, hs, htoken⟩
    · exact ih htokens ht

/-- The last token is the end of the file. -/
theorem tokenize_closed {source : String} {ts : List Token} (h : tokenize source = .ok ts) :
    ∃ body last, ts = body ++ [last] ∧ last.kind = .endOfFile := by
  have hscan : ∀ (p : Position) (text : List Char) (ts : List Token), scan p text = .ok ts →
      ∃ body last, ts = body ++ [last] ∧ last.kind = .endOfFile := by
    intro p text
    fun_induction scan p text with
    | case1 p =>
      intro ts h
      exact ⟨[], _, (Except.ok.inj h).symm, rfl⟩
    | case2 => exact fun ts h => by cases h
    | case3 => exact fun ts h => by cases h
    | case4 p c tail piece hpiece _ tokens htokens hskip ih =>
      intro ts h
      obtain rfl := Except.ok.inj h
      exact ih tokens htokens
    | case5 p c tail piece hpiece _ tokens htokens kind value htoken ih =>
      intro ts h
      obtain rfl := Except.ok.inj h
      obtain ⟨body, last, rfl, hlast⟩ := ih tokens htokens
      exact ⟨_ :: body, last, rfl, hlast⟩
  exact hscan _ _ ts h

/-- The lexer only complains about characters that start no token. -/
theorem tokenize_error {source : String} {e : Error} (h : tokenize source = .error e) :
    ∃ token, e.cause = .unrecognisedToken token := by
  have hscan : ∀ (p : Position) (text : List Char), scan p text = .error e →
      ∃ token, e.cause = .unrecognisedToken token := by
    intro p text
    fun_induction scan p text with
    | case1 => exact fun h => by cases h
    | case2 p c tail hpiece =>
      intro h
      obtain rfl := Except.error.inj h
      exact ⟨_, rfl⟩
    | case3 p c tail piece hpiece _ e' he' ih =>
      intro h
      obtain rfl := Except.error.inj h
      exact ih he'
    | case4 => exact fun h => by cases h
    | case5 => exact fun h => by cases h
  exact hscan _ _ h

/-- A word is an identifier or has the kind of a reserved word. -/
theorem wordKind_mem (word : String) :
    TokenKind.wordKind word ∈ TokenKind.identifier :: TokenKind.reservedWords.map Prod.snd := by
  rw [TokenKind.wordKind, TokenKind.reserved?]
  cases h : TokenKind.reservedWords.lookup word with
  | none => exact .head _
  | some kind =>
    obtain ⟨l1, l2, heq, -⟩ := List.lookup_eq_some_iff.1 h
    refine .tail _ (List.mem_map.2 ⟨(word, kind), ?_, rfl⟩)
    rw [heq]
    simp

/-- Integer and real tokens come from the pattern of their kind only. -/
theorem Pattern.of_token? {pattern : Pattern} (hmem : pattern ∈ patterns) {kind : TokenKind}
    {value : String} (h : pattern.token? lexeme = some (kind, value)) :
    (kind = .integer → pattern = .integer) ∧ (kind = .real → pattern = .real) := by
  cases pattern with
  | blanks | lineComment | blockComment => cases h
  | string | real | integer =>
    obtain ⟨rfl, -⟩ := Prod.mk.inj (Option.some.inj h)
    simp
  | word =>
    obtain ⟨hkind, -⟩ := Prod.mk.inj (Option.some.inj h)
    have hword := wordKind_mem (String.ofList lexeme)
    rw [hkind] at hword
    constructor
    · rintro rfl
      exact absurd hword (by decide)
    · rintro rfl
      exact absurd hword (by decide)
  | symbol k first others =>
    obtain ⟨rfl, -⟩ := Prod.mk.inj (Option.some.inj h)
    constructor
    · rintro rfl
      simp [patterns] at hmem
    · rintro rfl
      simp [patterns] at hmem

/-- What cuts off a token with a number in it, and what it cuts off. -/
theorem Token.Lexed.pattern (h : t.Lexed) :
    (t.kind = .integer → ∃ text rest, splitRun? isDigit text = some (t.value.toList, rest)) ∧
      (t.kind = .real → ∃ text rest, splitReal? text = some (t.value.toList, rest)) := by
  obtain ⟨source, ts, htokens, u, hu, hkind, hvalue⟩ := h
  rw [← hkind, ← hvalue]
  rcases mem_scan htokens hu with hend | ⟨pattern, hmem, front, lexeme, rest, hsplit, htoken⟩
  · rw [hend]
    exact ⟨nofun, nofun⟩
  · have hpattern := Pattern.of_token? hmem htoken
    constructor
    · intro hk
      obtain rfl := hpattern.1 hk
      have hlexeme : String.ofList lexeme = u.value := (Prod.mk.inj (Option.some.inj htoken)).2
      rw [← hlexeme, String.toList_ofList]
      exact ⟨front, rest, hsplit⟩
    · intro hk
      obtain rfl := hpattern.2 hk
      have hlexeme : String.ofList lexeme = u.value := (Prod.mk.inj (Option.some.inj htoken)).2
      rw [← hlexeme, String.toList_ofList]
      exact ⟨front, rest, hsplit⟩

/-- The text of an integer token is a 32-bit word exactly if its value is at most the greatest
one. -/
theorem Token.Lexed.word_iff (h : t.Lexed) (hkind : t.kind = .integer) :
    (wordOfText? t.value).isSome ↔ Nat.ofDigitChars 10 t.value.toList 0 ≤ 0x7fffffff := by
  obtain ⟨text, rest, hsplit⟩ := h.pattern.1 hkind
  exact wordOfText?_isSome_iff (splitRun?_isDigits hsplit)

/-- The text of a real token always spells a number. -/
theorem Token.Lexed.real (h : t.Lexed) (hkind : t.kind = .real) :
    (Binary64.ofText? t.value).isSome := by
  obtain ⟨text, rest, hsplit⟩ := h.pattern.2 hkind
  have hreal := ofText?_of_splitReal? hsplit
  rwa [String.ofList_toList] at hreal

end PLang
