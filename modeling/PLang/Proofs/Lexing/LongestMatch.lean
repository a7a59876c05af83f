import PLang.Proofs.Lexing.Classes

/-!
# The first match is the longest match

The patterns are tried in a fixed order. For the patterns that make tokens the order does not
matter: where the first one that matches cuts off a lexeme, no other one has a longer lexeme there,
and none has the same (`firstPiece?_iff_munch`). Of two symbols with the same first character the
longer one is tried first, a real number is tried before an integer, and all other classes differ in
their first characters.
-/

namespace PLang

open List Pattern

variable {c : Char} {p : Pattern} {piece : Piece} {text : List Char}

namespace Pattern

variable {p q : Pattern} {c : Char} {text l l' : List Char}

/-- Whether the pieces of a pattern are skipped. -/
def isSkipped : Pattern → Bool
  | blanks | lineComment | blockComment => true
  | _ => false

/-- The characters with which the pieces of a pattern start. -/
def starts : Pattern → Char → Bool
  | blanks => isBlank
  | lineComment | blockComment => (· == '/')
  | string => (· == '"')
  | real | integer => isDigit
  | word => isWordStart
  | symbol _ first _ => (first == ·)

/-- A piece starts as its pattern says. -/
theorem starts_of_class (h : p.Class l) : ∃ c rest, l = c :: rest ∧ p.starts c = true := by
  cases p with
  | blanks | integer =>
    obtain ⟨c, rest, rfl⟩ := exists_cons_of_ne_nil h.1
    exact ⟨c, rest, rfl, all_eq_true.1 h.2 c (.head _)⟩
  | lineComment | blockComment | string =>
    obtain ⟨rest, rfl, -⟩ := h
    exact ⟨_, rest, rfl, rfl⟩
  | real =>
    obtain ⟨whole, rest, hdigits, -, rfl⟩ := h
    obtain ⟨c, whole, rfl⟩ := exists_cons_of_ne_nil hdigits.1
    exact ⟨c, whole ++ rest, rfl, all_eq_true.1 hdigits.2 c (.head _)⟩
  | word =>
    obtain ⟨first, others, rfl, hfirst, -⟩ := h
    exact ⟨first, others, rfl, hfirst⟩
  | symbol kind first others => exact ⟨first, others, h, beq_self_eq_true first⟩

/-- Pieces of two patterns in front of one text start with the same character. -/
theorem starts_common (hfront : l <+: text) (hl : p.Class l) (hfront' : l' <+: text)
    (hl' : q.Class l') : ∃ c, p.starts c = true ∧ q.starts c = true := by
  obtain ⟨c, rest, rfl, hc⟩ := starts_of_class hl
  obtain ⟨c', rest', rfl, hc'⟩ := starts_of_class hl'
  obtain ⟨tail, rfl⟩ := hfront
  rw [(cons_prefix_cons.1 hfront').1] at hc'
  exact ⟨c, hc, hc'⟩

/-! ### The order of the patterns -/

/-- Whether a pattern may be tried before another one: of two symbols it is not a beginning of the
other one, a symbol does not start like a piece of another class, and an integer does not come
before a real number. -/
def mayPrecede : Pattern → Pattern → Bool
  | symbol _ first others, symbol _ first' others' =>
    !(first :: others).isPrefixOf (first' :: others')
  | symbol _ first _, q => !q.starts first
  | p, symbol _ first _ => !p.starts first
  | p, q => p != q && !(p == integer && q == real)

theorem isWordStart_of_isDigit (h : isDigit c = true) : isWordStart c = false := by
  rw [isWordStart, Bool.or_eq_false_iff]
  constructor
  · delta Char.isAlpha Char.isUpper Char.isLower
    simp only [isDigit, Char.isDigit, Bool.and_eq_true, decide_eq_true_eq, Bool.or_eq_false_iff,
      Bool.and_eq_false_iff, decide_eq_false_iff_not, ge_iff_le, UInt32.le_iff_toNat_le] at h ⊢
    have hlt : c.val.toNat < 'A'.val.toNat := Nat.lt_of_le_of_lt h.2 (by decide)
    have hlt' : c.val.toNat < 'a'.val.toNat := hlt.trans (by decide)
    exact ⟨fun hupper => Nat.not_le_of_lt hlt hupper.1, .inl (Nat.not_le_of_lt hlt')⟩
  · refine beq_eq_false_iff_ne.2 ?_
    rintro rfl
    cases h

/-- A real number is longer than every integer in front of the same text. -/
theorem length_lt_of_real (hfront : l <+: text) (hl : IsReal l) (hfront' : l' <+: text)
    (hl' : IsDigits l') : l'.length < l.length := by
  obtain ⟨whole, rest, hwhole, hrest, rfl⟩ := hl
  obtain ⟨tail, rfl⟩ := hfront
  have hle := length_le_takeWhile hfront' hl'.2
  rw [append_assoc, hwhole.takeWhile_append (hrest.startsApart.append hrest.ne_nil)] at hle
  have hpos := length_pos_iff.2 hrest.ne_nil
  rw [length_append]
  omega

/-- Of two patterns of more than one spelling, only a real number and an integer start alike. -/
theorem eq_of_starts (h : p.mayPrecede q = true) (hp : p.isSkipped = false)
    (hq : q.isSkipped = false) (hpc : p.starts c = true) (hqc : q.starts c = true) :
    (p = real ∧ q = integer) ∨ ∃ kind first others kind' first' others',
      p = symbol kind first others ∧ q = symbol kind' first' others' := by
  have hquote : ∀ {c : Char}, (c == '"') = true → isDigit c = false ∧ isWordStart c = false := by
    intro c hc
    rw [eq_of_beq hc]
    decide
  cases p <;> cases q <;> simp_all [mayPrecede, isSkipped, starts, isWordStart_of_isDigit]

/-- Where two patterns match and the first may be tried before the second, its piece is longer. -/
theorem length_lt_of_mayPrecede (h : p.mayPrecede q = true) (hp : p.isSkipped = false)
    (hq : q.isSkipped = false) (hfront : l <+: text) (hl : p.Class l) (hfront' : l' <+: text)
    (hl' : q.Class l') : l'.length < l.length := by
  obtain ⟨c, hpc, hqc⟩ := starts_common hfront hl hfront' hl'
  rcases eq_of_starts h hp hq hpc hqc with
    ⟨rfl, rfl⟩ | ⟨kind, first, others, kind', first', others', rfl, rfl⟩
  · exact length_lt_of_real hfront hl hfront' hl'
  · have hnot : ¬l <+: l' := by
      rw [← isPrefixOf_iff_prefix, hl, hl', Bool.not_eq_true, ← Bool.not_eq_true']
      exact h
    exact Nat.lt_of_not_le fun hle => hnot (prefix_of_prefix_length_le hfront hfront' hle)

end Pattern

/-! ### Longest lexemes -/

/-- The patterns that make tokens: strings, real numbers, integers, words and symbols. -/
def tokenPatterns : List Pattern := patterns.filter fun p => !p.isSkipped

theorem tokenPatterns_pairwise : tokenPatterns.Pairwise fun p q => p.mayPrecede q = true := by
  decide

theorem tokenPatterns_comparable : ∀ p ∈ tokenPatterns, ∀ q ∈ tokenPatterns,
    p = q ∨ p.mayPrecede q = true ∨ q.mayPrecede p = true := by
  decide

theorem mem_tokenPatterns : p ∈ tokenPatterns ↔ p ∈ patterns ∧ p.isSkipped = false := by
  rw [tokenPatterns, mem_filter, Bool.not_eq_true']

/-- Lexemes of another class start neither like a string nor like a word. -/
theorem eq_of_starts_sole {q : Pattern} (hp : p ∈ tokenPatterns) (hq : q ∈ tokenPatterns)
    (hpc : p.starts c = true) (hqc : q.starts c = true) (hsole : q = .string ∨ q = .word) :
    p = q := by
  have hp' := (mem_tokenPatterns.1 hp).2
  have hq' := (mem_tokenPatterns.1 hq).2
  have hnot : ¬(q = .real ∨ q = .integer ∨ ∃ kind first others, q = .symbol kind first others) := by
    rcases hsole with rfl | rfl <;> simp
  rcases tokenPatterns_comparable p hp q hq with heq | hprecedes | hprecedes
  · exact heq
  · rcases eq_of_starts hprecedes hp' hq' hpc hqc with
      ⟨-, heq⟩ | ⟨_, _, _, kind, first, others, -, heq⟩
    · exact absurd (.inr (.inl heq)) hnot
    · exact absurd (.inr (.inr ⟨kind, first, others, heq⟩)) hnot
  · rcases eq_of_starts hprecedes hq' hp' hqc hpc with
      ⟨heq, -⟩ | ⟨kind, first, others, _, _, _, heq, -⟩
    · exact absurd (.inl heq) hnot
    · exact absurd (.inr (.inr ⟨kind, first, others, heq⟩)) hnot

/-- No text is a lexeme of two classes. -/
theorem eq_of_class {q : Pattern} {l : List Char} (hp : p ∈ tokenPatterns) (hq : q ∈ tokenPatterns)
    (hpl : p.Class l) (hql : q.Class l) : p = q := by
  have hp' := (mem_tokenPatterns.1 hp).2
  have hq' := (mem_tokenPatterns.1 hq).2
  rcases tokenPatterns_comparable p hp q hq with heq | hprecedes | hprecedes
  · exact heq
  · exact absurd (length_lt_of_mayPrecede hprecedes hp' hq' (prefix_refl l) hpl
      (prefix_refl l) hql) (Nat.lt_irrefl _)
  · exact absurd (length_lt_of_mayPrecede hprecedes hq' hp' (prefix_refl l) hql
      (prefix_refl l) hpl) (Nat.lt_irrefl _)

/-- A piece is the longest match in front of a text: no class of tokens has a longer lexeme there,
and no other class has the same. -/
structure Munch (text : List Char) (piece : Piece) : Prop where
  mem : piece.pattern ∈ tokenPatterns
  append : piece.lexeme ++ piece.rest = text
  lexeme : piece.pattern.Class piece.lexeme
  longest : ∀ q ∈ tokenPatterns, ∀ l, l <+: text → q.Class l → l.length ≤ piece.lexeme.length
  unique : ∀ q ∈ tokenPatterns, q.Class piece.lexeme → q = piece.pattern

/-- A longest match is the longest one of its own class. -/
theorem Munch.longestCut (h : Munch text piece) :
    LongestCut piece.pattern.Class text (piece.lexeme, piece.rest) :=
  ⟨h.append, h.lexeme, h.longest _ h.mem⟩

/-- There is one longest match. -/
theorem Munch.eq {piece' : Piece} (h : Munch text piece) (h' : Munch text piece') :
    piece' = piece := by
  have hfront : piece.lexeme <+: text := ⟨_, h.append⟩
  have hfront' : piece'.lexeme <+: text := ⟨_, h'.append⟩
  have hlength : piece'.lexeme.length = piece.lexeme.length :=
    Nat.le_antisymm (h.longest _ h'.mem _ hfront' h'.lexeme)
      (h'.longest _ h.mem _ hfront h.lexeme)
  obtain ⟨hlexeme, hrest⟩ := append_inj (h'.append.trans h.append.symm) hlength
  have hpattern := h.unique _ h'.mem (hlexeme ▸ h'.lexeme)
  obtain ⟨pattern, lexeme, rest⟩ := piece
  obtain ⟨pattern', lexeme', rest'⟩ := piece'
  obtain rfl : lexeme' = lexeme := hlexeme
  obtain rfl : rest' = rest := hrest
  obtain rfl : pattern' = pattern := hpattern
  rfl

/-- Nothing is cut off a text exactly if it starts with no piece of any class. -/
theorem firstPiece?_eq_none_iff :
    firstPiece? text = none ↔ ∀ p ∈ patterns, ∀ l, l <+: text → ¬p.Class l := by
  simp only [firstPiece?, findSome?_eq_none_iff, Option.map_eq_none_iff,
    (cuts _).eq_none_iff]

/-- The first piece of a text is the longest one of its class, and no class tried before it has a
piece there. -/
theorem firstPiece?_eq_some_iff :
    firstPiece? text = some piece ↔ ∃ earlier later, patterns = earlier ++ piece.pattern :: later ∧
      LongestCut piece.pattern.Class text (piece.lexeme, piece.rest) ∧
        ∀ q ∈ earlier, ∀ l, l <+: text → ¬q.Class l := by
  simp only [firstPiece?, findSome?_eq_some_iff, Option.map_eq_none_iff,
    Option.map_eq_some_iff, (cuts _).eq_none_iff, (cuts _).eq_some_iff]
  constructor
  · rintro ⟨earlier, p, later, hpatterns, ⟨s, hs, rfl⟩, hearlier⟩
    exact ⟨earlier, later, hpatterns, hs, hearlier⟩
  · rintro ⟨earlier, later, hpatterns, hcut, hearlier⟩
    exact ⟨earlier, piece.pattern, later, hpatterns, ⟨_, hcut, rfl⟩, hearlier⟩

/-- The patterns of skipped text are tried before those of tokens. -/
theorem patterns_skipped_first :
    patterns.Pairwise fun p q => p.isSkipped = false → q.isSkipped = false := by
  decide

theorem munch_of_firstPiece? (h : firstPiece? text = some piece)
    (htoken : piece.pattern.isSkipped = false) : Munch text piece := by
  obtain ⟨earlier, later, hpatterns, hcut, hearlier⟩ := firstPiece?_eq_some_iff.1 h
  have hmem : piece.pattern ∈ tokenPatterns := by
    rw [mem_tokenPatterns, hpatterns]
    exact ⟨mem_append_right _ (.head _), htoken⟩
  refine ⟨hmem, hcut.append, hcut.mem, fun q hq l hl hclass => ?_, fun q hq hclass =>
    eq_of_class hq hmem hclass hcut.mem⟩
  obtain ⟨hq, hskip⟩ := mem_tokenPatterns.1 hq
  rw [hpatterns, mem_append, mem_cons] at hq
  rcases hq with hq | rfl | hq
  · exact absurd hclass (hearlier q hq l hl)
  · exact hcut.longest l hl hclass
  · -- a pattern that is tried later has a shorter piece here
    have hpairwise := tokenPatterns_pairwise
    rw [tokenPatterns, hpatterns, filter_append, filter_cons_of_pos (by rw [htoken]; rfl)]
      at hpairwise
    have hprecedes := rel_of_pairwise_cons (pairwise_append.1 hpairwise).2.1
      (mem_filter.2 ⟨hq, by rw [hskip]; rfl⟩)
    exact Nat.le_of_lt (length_lt_of_mayPrecede hprecedes htoken hskip ⟨_, hcut.append⟩
      hcut.mem hl hclass)

/-- Nothing in front of a text is skipped. -/
def Unskipped (text : List Char) : Prop :=
  ∀ p ∈ patterns, p.isSkipped = true → ∀ l, l <+: text → ¬p.Class l

/-- The first piece of a text is a lexeme exactly if nothing in front of the text is skipped, and
then it is the longest match. -/
theorem firstPiece?_iff_munch :
    firstPiece? text = some piece ∧ piece.pattern.isSkipped = false ↔
      Unskipped text ∧ Munch text piece := by
  constructor
  · rintro ⟨h, htoken⟩
    refine ⟨fun p hp hskip => ?_, munch_of_firstPiece? h htoken⟩
    obtain ⟨earlier, later, hpatterns, -, hearlier⟩ := firstPiece?_eq_some_iff.1 h
    have hpairwise := patterns_skipped_first
    rw [hpatterns] at hp hpairwise
    rcases mem_append.1 hp with hp | hp
    · exact hearlier p hp
    · rcases mem_cons.1 hp with rfl | hp
      · rw [htoken] at hskip
        cases hskip
      · have hlater := rel_of_pairwise_cons (pairwise_append.1 hpairwise).2.1 hp htoken
        rw [hlater] at hskip
        cases hskip
  · rintro ⟨hskipped, hmunch⟩
    have hfront : piece.lexeme <+: text := ⟨_, hmunch.append⟩
    have hmem := (mem_tokenPatterns.1 hmunch.mem).1
    cases hpiece : firstPiece? text with
    | none => exact absurd hmunch.lexeme (firstPiece?_eq_none_iff.1 hpiece _ hmem _ hfront)
    | some piece' =>
      obtain ⟨earlier, later, hpatterns, hcut, -⟩ := firstPiece?_eq_some_iff.1 hpiece
      have htoken : piece'.pattern.isSkipped = false := by
        refine Bool.not_eq_true _ ▸ fun hskip => hskipped _ ?_ hskip _ ⟨_, hcut.append⟩ hcut.mem
        rw [hpatterns]
        exact mem_append_right _ (.head _)
      obtain rfl := hmunch.eq (munch_of_firstPiece? hpiece htoken)
      exact ⟨rfl, htoken⟩

/-! ### Blanks in lexemes -/

theorem isBlank_of_isWordPart (h : isWordPart c = true) : isBlank c = false := by
  have hrange : 48 ≤ c.toNat ∧ c.toNat ≤ 122 := by
    rw [isWordPart, isWordStart] at h
    delta Char.isAlpha Char.isUpper Char.isLower at h
    simp only [isDigit, Char.isDigit, Bool.or_eq_true, Bool.and_eq_true, decide_eq_true_eq,
      ge_iff_le, UInt32.le_iff_toNat_le, beq_iff_eq] at h
    rcases h with ((h | h) | rfl) | h
    · exact ⟨Nat.le_trans (by decide) h.1, Nat.le_trans h.2 (by decide)⟩
    · exact ⟨Nat.le_trans (by decide) h.1, Nat.le_trans h.2 (by decide)⟩
    · decide
    · exact ⟨Nat.le_trans (by decide) h.1, Nat.le_trans h.2 (by decide)⟩
  simp only [isBlank, Bool.or_eq_false_iff, Bool.and_eq_false_iff, decide_eq_false_iff_not,
    beq_eq_false_iff_ne]
  omega

theorem IsDigits.isBlank {digits : List Char} (h : IsDigits digits) (hc : c ∈ digits) :
    isBlank c = false := by
  have hdigit : isDigit c = true := all_eq_true.1 h.2 c hc
  exact isBlank_of_isWordPart (by rw [isWordPart, hdigit, Bool.or_true])

theorem IsExponent.isBlank (h : IsExponent text) (hc : c ∈ text) : isBlank c = false := by
  obtain ⟨mark, sign, digits, hmark, hsign, hdigits, rfl⟩ := h
  rw [mem_cons, mem_append] at hc
  rcases hc with rfl | hc | hc
  · rcases hmark with rfl | rfl <;> rfl
  · rcases hsign with rfl | rfl | rfl
    · exact absurd hc not_mem_nil
    · rw [mem_singleton.1 hc]
      rfl
    · rw [mem_singleton.1 hc]
      rfl
  · exact hdigits.isBlank hc

theorem IsReal.isBlank (h : IsReal text) (hc : c ∈ text) : isBlank c = false := by
  obtain ⟨whole, rest, hwhole, hrest, rfl⟩ := h
  rcases mem_append.1 hc with hc | hc
  · exact hwhole.isBlank hc
  · rcases hrest with ⟨fraction, exponent, hfraction, hexponent, rfl⟩ | hrest
    · rw [mem_cons, mem_append] at hc
      rcases hc with rfl | hc | hc
      · rfl
      · exact hfraction.isBlank hc
      · rcases hexponent with rfl | hexponent
        · exact absurd hc not_mem_nil
        · exact hexponent.isBlank hc
    · exact hrest.isBlank hc

/-- The spelling of a symbol. -/
def Pattern.spelling : Pattern → List Char
  | symbol _ first others => first :: others
  | _ => []

/-- Only strings have blanks in their lexemes. -/
theorem isBlank_of_class {l : List Char} (hp : p ∈ tokenPatterns) (hne : p ≠ .string)
    (hl : p.Class l) (hc : c ∈ l) : isBlank c = false := by
  cases p with
  | blanks | lineComment | blockComment => exact absurd hp (by decide)
  | string => exact absurd rfl hne
  | real => exact IsReal.isBlank hl hc
  | integer => exact IsDigits.isBlank hl hc
  | word =>
    obtain ⟨first, others, rfl, hfirst, hothers⟩ := hl
    rcases mem_cons.1 hc with rfl | hc
    · exact isBlank_of_isWordPart (by rw [isWordPart, hfirst, Bool.true_or])
    · exact isBlank_of_isWordPart (all_eq_true.1 hothers c hc)
  | symbol kind first others =>
    have hspelling : ∀ p ∈ tokenPatterns, p.spelling.all (!isBlank ·) = true := by decide
    obtain rfl : l = first :: others := hl
    simpa using all_eq_true.1 (hspelling _ hp) c hc

end PLang
