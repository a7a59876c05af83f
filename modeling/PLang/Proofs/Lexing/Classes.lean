import Mathlib.Data.List.Infix
import PLang.Proofs.Lexemes

/-!
# The classes of text

Every pattern stands for a class of texts. The classes are said here without reference to how a
piece is cut off a text. `Pattern.cuts` says that a pattern cuts off the longest piece of its class,
and that it matches wherever there is such a piece.
-/

namespace PLang

open List Option

variable {c : Char} {digits tail : List Char}

/-- A non-empty run of characters of a class. -/
def IsRun (p : Char → Bool) (text : List Char) : Prop := text ≠ [] ∧ text.all p = true

/-- A character with a text of a class behind it. -/
def Led (c : Char) (L : List Char → Prop) (text : List Char) : Prop :=
  ∃ rest, text = c :: rest ∧ L rest

/-- A comment that runs to the end of a line. -/
def IsLineComment : List Char → Prop := Led '/' (Led '/' fun body => '\n' ∉ body)

/-- The rest of a block comment, up to the first closing mark. -/
def IsCommentEnd (text : List Char) : Prop :=
  ∃ body, text = body ++ ['*', '/'] ∧ ¬['*', '/'] <:+: body ++ ['*']

/-- A block comment. -/
def IsBlockComment : List Char → Prop := Led '/' (Led '*' IsCommentEnd)

/-- What may stand between the quotes of a string: characters of one line, quotes only doubled. -/
inductive IsQuoted : List Char → Prop
  | nil : IsQuoted []
  | char {c : Char} {text : List Char} : c ≠ '"' → c ≠ '\n' → IsQuoted text → IsQuoted (c :: text)
  | pair {text : List Char} : IsQuoted text → IsQuoted ('"' :: '"' :: text)

/-- The rest of a string with its closing quote. -/
def IsStringEnd (text : List Char) : Prop := ∃ inner, text = inner ++ ['"'] ∧ IsQuoted inner

/-- A string with its quotes. -/
def IsString : List Char → Prop := Led '"' IsStringEnd

/-- An exponent: a mark, an optional sign and digits. -/
def IsExponent (text : List Char) : Prop :=
  ∃ mark sign digits, (mark = 'e' ∨ mark = 'E') ∧ (sign = [] ∨ sign = ['+'] ∨ sign = ['-']) ∧
    IsDigits digits ∧ text = mark :: (sign ++ digits)

/-- What makes a number real: a fraction with an optional exponent, or an exponent. -/
def IsRealEnd (text : List Char) : Prop :=
  (∃ fraction exponent, IsDigits fraction ∧ (exponent = [] ∨ IsExponent exponent) ∧
    text = '.' :: (fraction ++ exponent)) ∨ IsExponent text

/-- A real number. -/
def IsReal (text : List Char) : Prop :=
  ∃ whole rest, IsDigits whole ∧ IsRealEnd rest ∧ text = whole ++ rest

/-- A word. -/
def IsWord (text : List Char) : Prop :=
  ∃ first others, text = first :: others ∧ isWordStart first = true ∧ others.all isWordPart = true

/-- The texts that a pattern stands for. -/
def Pattern.Class : Pattern → List Char → Prop
  | .blanks => IsRun isBlank
  | .lineComment => IsLineComment
  | .blockComment => IsBlockComment
  | .string => IsString
  | .real => IsReal
  | .integer => IsDigits
  | .word => IsWord
  | .symbol _ first others => (· = first :: others)

/-! ### Cutting off the longest piece -/

variable {L : List Char → Prop} {text rest l : List Char} {s : List Char × List Char}

/-- A cut of a text behind the longest piece of a class in front. -/
structure LongestCut (L : List Char → Prop) (text : List Char) (s : List Char × List Char) :
    Prop where
  append : s.1 ++ s.2 = text
  mem : L s.1
  longest : ∀ l, l <+: text → L l → l.length ≤ s.1.length

/-- A way of cutting off the longest piece of a class, wherever there is one. -/
structure Cuts (L : List Char → Prop) (split : List Char → Option (List Char × List Char)) :
    Prop where
  some : ∀ text s, split text = some s → LongestCut L text s
  none : ∀ text, split text = none → ∀ l, l <+: text → ¬L l

/-- Two longest pieces are the same. -/
theorem LongestCut.eq {s' : List Char × List Char} (h : LongestCut L text s)
    (h' : LongestCut L text s') : s' = s := by
  have hfront : s.1 <+: text := ⟨s.2, h.append⟩
  have hfront' : s'.1 <+: text := ⟨s'.2, h'.append⟩
  have hlength : s'.1.length = s.1.length :=
    Nat.le_antisymm (h.longest _ hfront' h'.mem) (h'.longest _ hfront h.mem)
  obtain ⟨h1, h2⟩ := append_inj (h'.append.trans h.append.symm) hlength
  exact Prod.ext h1 h2

namespace Cuts

variable {split : List Char → Option (List Char × List Char)}

theorem eq_none_iff (h : Cuts L split) : split text = Option.none ↔ ∀ l, l <+: text → ¬L l := by
  refine ⟨h.none text, fun hnone => Option.eq_none_iff_forall_ne_some.2 fun s hs => ?_⟩
  have hcut := h.some text s hs
  exact hnone s.1 ⟨s.2, hcut.append⟩ hcut.mem

theorem eq_some_iff (h : Cuts L split) : split text = Option.some s ↔ LongestCut L text s := by
  refine ⟨h.some text s, fun hs => ?_⟩
  cases hsplit : split text with
  | none => exact absurd hs.mem (h.none text hsplit s.1 ⟨s.2, hs.append⟩)
  | some s' => rw [hs.eq (h.some text s' hsplit)]

end Cuts

/-- Pieces in front of a text that has a first character have it too. -/
theorem length_le_of_cons {n : Nat} (h : ∀ l, l <+: text → L (c :: l) → l.length ≤ n) :
    ∀ l, l <+: c :: text → L l → l.length ≤ n + 1 := by
  intro l hfront hl
  rcases l with - | ⟨d, l⟩
  · exact Nat.zero_le _
  · obtain ⟨rfl, hrest⟩ := cons_prefix_cons.1 hfront
    exact Nat.succ_le_succ (h l hrest hl)

theorem not_of_cons (hnil : ¬L []) (h : ∀ l, l <+: text → ¬L (c :: l)) :
    ∀ l, l <+: c :: text → ¬L l := by
  intro l hfront hl
  rcases l with - | ⟨d, l⟩
  · exact hnil hl
  · obtain ⟨rfl, hrest⟩ := cons_prefix_cons.1 hfront
    exact h l hrest hl

/-- A character in front makes the longest piece longer by one. -/
theorem LongestCut.cons (h : LongestCut L text s) (c : Char) :
    LongestCut (Led c L) (c :: text) (c :: s.1, s.2) := by
  refine ⟨congrArg (c :: ·) h.append, ⟨s.1, rfl, h.mem⟩, ?_⟩
  rintro _ hfront ⟨l, rfl, hl⟩
  exact Nat.succ_le_succ (h.longest l (cons_prefix_cons.1 hfront).2 hl)

/-- A text of the class `Led c L` in front shows its first character. -/
theorem Led.of_front (h : Led c L l) (hfront : l <+: text) :
    ∃ rest tail, l = c :: rest ∧ text = c :: tail ∧ rest <+: tail ∧ L rest := by
  obtain ⟨rest, rfl, hrest⟩ := h
  obtain ⟨tail, rfl⟩ := hfront
  exact ⟨rest, rest ++ tail, rfl, rfl, prefix_append _ _, hrest⟩

/-! ### Runs and words -/

/-- A run in front of a text is not longer than the greedy one. -/
theorem length_le_takeWhile {p : Char → Bool} (hfront : l <+: text) (hl : l.all p = true) :
    l.length ≤ (text.takeWhile p).length := by
  obtain ⟨tail, rfl⟩ := hfront
  rw [takeWhile_append_of_pos (all_eq_true.1 hl), length_append]
  exact Nat.le_add_right _ _

theorem splitRun?_cuts (p : Char → Bool) : Cuts (IsRun p) (splitRun? p) := by
  constructor
  · intro text s hs
    have hcut := splitRun?_isCut hs
    unfold splitRun? at hs
    split at hs
    · cases hs
    · cases hs
      exact ⟨hcut.2, ⟨hcut.1, all_takeWhile⟩, fun l hfront hl =>
        length_le_takeWhile hfront hl.2⟩
  · intro text hs l hfront hl
    unfold splitRun? at hs
    split at hs
    · rename_i hempty
      have hle := length_le_takeWhile hfront hl.2
      rw [isEmpty_iff.1 hempty] at hle
      exact hl.1 (length_eq_zero_iff.1 (Nat.le_zero.1 hle))
    · cases hs

theorem splitWord?_cuts : Cuts IsWord splitWord? := by
  constructor
  · intro text s hs
    have hcut := splitWord?_isCut hs
    cases text with
    | nil => cases hs
    | cons c text =>
      rw [splitWord?] at hs
      obtain ⟨hc, hs⟩ := ite_none_right_eq_some.1 hs
      cases hs
      refine ⟨hcut.2, ⟨c, _, rfl, hc, all_takeWhile⟩, ?_⟩
      rintro _ hfront ⟨first, others, rfl, -, hothers⟩
      exact Nat.succ_le_succ (length_le_takeWhile (cons_prefix_cons.1 hfront).2 hothers)
  · rintro text hs _ hfront ⟨first, others, rfl, hfirst, -⟩
    obtain ⟨tail, rfl⟩ := hfront
    rw [cons_append, splitWord?, if_pos hfirst] at hs
    cases hs

/-! ### Comments -/

theorem splitLineComment?_cuts : Cuts IsLineComment splitLineComment? := by
  have hbody : ∀ text : List Char, LongestCut (fun body => '\n' ∉ body) text
      (text.takeWhile (· != '\n'), text.dropWhile (· != '\n')) := by
    intro text
    refine ⟨takeWhile_append_dropWhile, fun hmem => ?_, fun l hfront hl => ?_⟩
    · simpa using all_eq_true.1 all_takeWhile _ hmem
    · refine length_le_takeWhile hfront (all_eq_true.2 fun c hc => ?_)
      exact bne_iff_ne.2 fun heq => hl (heq ▸ hc)
  constructor
  · intro text s hs
    unfold splitLineComment? at hs
    split at hs
    · rename_i body
      cases hs
      exact ((hbody body).cons '/').cons '/'
    · cases hs
  · intro text hs l hfront hl
    obtain ⟨l, tail, rfl, rfl, hfront, hl⟩ := Led.of_front hl hfront
    obtain ⟨l, tail, rfl, rfl, -, -⟩ := Led.of_front hl hfront
    cases hs

/-- A closing mark stands in front exactly if its two characters do. -/
theorem mark_prefix_cons : ['*', '/'] <+: c :: l ↔ c = '*' ∧ l.head? = some '/' := by
  rw [cons_prefix_cons, eq_comm]
  cases l with
  | nil => simp
  | cons d l => simp [cons_prefix_cons, eq_comm]

/-- The end of a comment is the closing mark, or a character that does not start one and the end of
a comment. -/
theorem isCommentEnd_cons_iff : IsCommentEnd (c :: l) ↔
    c = '*' ∧ l = ['/'] ∨ ¬(c = '*' ∧ l.head? = some '/') ∧ IsCommentEnd l := by
  have hhead : ∀ body : List Char, (body ++ ['*', '/']).head? = (body ++ ['*']).head? := by
    intro body
    cases body <;> rfl
  constructor
  · rintro ⟨body, hl, hfirst⟩
    cases body with
    | nil => exact .inl (cons.inj hl)
    | cons d body =>
      obtain ⟨rfl, rfl⟩ := cons.inj hl
      rw [cons_append, infix_cons_iff, mark_prefix_cons, ← hhead, not_or] at hfirst
      exact .inr ⟨hfirst.1, body, rfl, hfirst.2⟩
  · rintro (⟨rfl, rfl⟩ | ⟨hnot, body, rfl, hfirst⟩)
    · exact ⟨[], rfl, by decide⟩
    · refine ⟨c :: body, rfl, ?_⟩
      rw [cons_append, infix_cons_iff, mark_prefix_cons, ← hhead, not_or]
      exact ⟨hnot, hfirst⟩

theorem not_isCommentEnd_nil : ¬IsCommentEnd [] := by
  rintro ⟨body, hbody, -⟩
  simp at hbody

theorem splitCommentEnd?_cuts : Cuts IsCommentEnd splitCommentEnd? := by
  constructor
  · intro text s hs
    fun_induction splitCommentEnd? text generalizing s with
    | case1 => cases hs
    | case2 text =>
      cases hs
      refine ⟨rfl, isCommentEnd_cons_iff.2 (.inl ⟨rfl, rfl⟩), length_le_of_cons ?_⟩
      intro l hslash hl
      rcases isCommentEnd_cons_iff.1 hl with ⟨-, rfl⟩ | ⟨hnot, hl'⟩
      · exact .refl
      · rcases l with - | ⟨d, l⟩
        · exact absurd hl' not_isCommentEnd_nil
        · rw [(cons_prefix_cons.1 hslash).1] at hnot
          exact absurd ⟨rfl, rfl⟩ hnot
    | case3 c text hother ih =>
      obtain ⟨s', hs', rfl⟩ := map_eq_some_iff.1 hs
      have hcut := ih s' hs'
      have hstart : ∀ l, l <+: text → ¬(c = '*' ∧ l.head? = some '/') := by
        rintro l ⟨tail, rfl⟩ ⟨rfl, hslash⟩
        obtain ⟨l, rfl⟩ := head?_eq_some_iff.1 hslash
        exact hother (l ++ tail) rfl rfl
      have hmem := isCommentEnd_cons_iff.2 (.inr ⟨hstart s'.1 ⟨s'.2, hcut.append⟩, hcut.mem⟩)
      refine ⟨congrArg (c :: ·) hcut.append, hmem, length_le_of_cons fun l hrest hl => ?_⟩
      rcases isCommentEnd_cons_iff.1 hl with ⟨hc, hslash⟩ | ⟨-, hl'⟩
      · exact absurd ⟨hc, hslash ▸ rfl⟩ (hstart _ hrest)
      · exact hcut.longest l hrest hl'
  · intro text hs
    fun_induction splitCommentEnd? text with
    | case1 => exact fun l hfront hl => not_isCommentEnd_nil (prefix_nil.1 hfront ▸ hl)
    | case2 => cases hs
    | case3 c text hother ih =>
      rw [map_eq_none_iff] at hs
      refine not_of_cons not_isCommentEnd_nil fun l hrest hl => ?_
      rcases isCommentEnd_cons_iff.1 hl with ⟨hc, rfl⟩ | ⟨-, hl'⟩
      · obtain ⟨tail, htail⟩ := hrest
        exact hother tail hc htail.symm
      · exact ih hs l hrest hl'

theorem splitBlockComment?_cuts : Cuts IsBlockComment splitBlockComment? := by
  constructor
  · intro text s hs
    unfold splitBlockComment? at hs
    split at hs
    · obtain ⟨s', hs', rfl⟩ := map_eq_some_iff.1 hs
      exact ((splitCommentEnd?_cuts.some _ _ hs').cons '*').cons '/'
    · cases hs
  · intro text hs l hfront hl
    obtain ⟨l, tail, rfl, rfl, hfront, hl⟩ := Led.of_front hl hfront
    obtain ⟨l, tail, rfl, rfl, hfront, hl⟩ := Led.of_front hl hfront
    rw [splitBlockComment?, map_eq_none_iff] at hs
    exact splitCommentEnd?_cuts.none _ hs l hfront hl

/-! ### Strings -/

/-- The end of a string is the closing quote, or a doubled quote or another character of the line
and the end of a string. -/
theorem isStringEnd_iff : IsStringEnd l ↔ l = ['"'] ∨
    (∃ rest, l = '"' :: '"' :: rest ∧ IsStringEnd rest) ∨
    ∃ c rest, l = c :: rest ∧ c ≠ '"' ∧ c ≠ '\n' ∧ IsStringEnd rest := by
  constructor
  · rintro ⟨inner, rfl, hinner⟩
    cases hinner with
    | nil => exact .inl rfl
    | char hquote hline hinner => exact .inr (.inr ⟨_, _, rfl, hquote, hline, _, rfl, hinner⟩)
    | pair hinner => exact .inr (.inl ⟨_, rfl, _, rfl, hinner⟩)
  · rintro (rfl | ⟨_, rfl, inner, rfl, hinner⟩ | ⟨c, _, rfl, hquote, hline, inner, rfl, hinner⟩)
    · exact ⟨[], rfl, .nil⟩
    · exact ⟨_, rfl, hinner.pair⟩
    · exact ⟨_, rfl, hinner.char hquote hline⟩

theorem not_isStringEnd_nil : ¬IsStringEnd [] := by
  rintro ⟨inner, hinner, -⟩
  simp at hinner

/-- What a quote and another character can be in front of: nothing, or a doubled quote. -/
theorem isStringEnd_quote_cons {l : List Char} (h : IsStringEnd ('"' :: l)) :
    l = [] ∨ ∃ rest, l = '"' :: rest ∧ IsStringEnd rest := by
  rcases isStringEnd_iff.1 h with hl | ⟨rest, hl, hrest⟩ | ⟨c, rest, hl, hquote, -⟩
  · exact .inl (cons.inj hl).2
  · exact .inr ⟨rest, (cons.inj hl).2, hrest⟩
  · exact absurd (cons.inj hl).1.symm hquote

theorem isStringEnd_cons_of_ne (hc : c ≠ '"') :
    IsStringEnd (c :: l) ↔ c ≠ '\n' ∧ IsStringEnd l := by
  refine ⟨fun h => ?_, fun h => isStringEnd_iff.2 (.inr (.inr ⟨c, l, rfl, hc, h⟩))⟩
  rcases isStringEnd_iff.1 h with hl | ⟨rest, hl, -⟩ | ⟨d, rest, hl, -, hline, hrest⟩
  · exact absurd (cons.inj hl).1 hc
  · exact absurd (cons.inj hl).1 hc
  · obtain ⟨rfl, rfl⟩ := cons.inj hl
    exact ⟨hline, hrest⟩

theorem splitStringEnd?_cuts : Cuts IsStringEnd splitStringEnd? := by
  have hclose : IsStringEnd ['"'] := isStringEnd_iff.2 (.inl rfl)
  suffices h : ∀ text, (∀ s, splitStringEnd? text = some s → LongestCut IsStringEnd text s) ∧
      (splitStringEnd? text = none → ∀ l, l <+: text → ¬IsStringEnd l) from
    ⟨fun text => (h text).1, fun text => (h text).2⟩
  intro text
  fun_induction splitStringEnd? text with
  | case1 =>
    refine ⟨fun s hs => (by cases hs), fun _ l hfront hl => ?_⟩
    exact not_isStringEnd_nil (prefix_nil.1 hfront ▸ hl)
  | case2 text s hs ih =>
    -- the doubled quote belongs to the string
    have hcut := ih.1 s hs
    refine ⟨fun s' hs' => ?_, fun hs' => by cases hs'⟩
    cases hs'
    refine ⟨congrArg ('"' :: '"' :: ·) hcut.append,
      isStringEnd_iff.2 (.inr (.inl ⟨_, rfl, hcut.mem⟩)), length_le_of_cons fun l hrest hl => ?_⟩
    rcases isStringEnd_quote_cons hl with rfl | ⟨rest, rfl, hl'⟩
    · exact Nat.zero_le _
    · exact Nat.succ_le_succ (hcut.longest rest (cons_prefix_cons.1 hrest).2 hl')
  | case3 text hs ih =>
    -- no string is closed behind the doubled quote
    have hnone := ih.2 hs
    refine ⟨fun s' hs' => ?_, fun hs' => by cases hs'⟩
    cases hs'
    refine ⟨rfl, hclose, length_le_of_cons fun l hrest hl => ?_⟩
    rcases isStringEnd_quote_cons hl with rfl | ⟨rest, rfl, hl'⟩
    · exact .refl
    · exact absurd hl' (hnone rest (cons_prefix_cons.1 hrest).2)
  | case4 text hother =>
    refine ⟨fun s' hs' => ?_, fun hs' => by cases hs'⟩
    cases hs'
    refine ⟨rfl, hclose, length_le_of_cons fun l hrest hl => ?_⟩
    rcases isStringEnd_quote_cons hl with rfl | ⟨rest, rfl, -⟩
    · exact .refl
    · obtain ⟨tail, rfl⟩ := hrest
      exact absurd rfl (hother (rest ++ tail))
  | case5 text hpair hquote =>
    refine ⟨fun s hs => (by cases hs), fun _ => not_of_cons not_isStringEnd_nil fun l _ hl => ?_⟩
    exact absurd rfl ((isStringEnd_cons_of_ne (by decide)).1 hl).1
  | case6 c text hpair hquote hline ih =>
    refine ⟨fun s hs => ?_, fun hs => not_of_cons not_isStringEnd_nil fun l hrest hl => ?_⟩
    · obtain ⟨s', hs', rfl⟩ := map_eq_some_iff.1 hs
      have hcut := ih.1 s' hs'
      refine ⟨congrArg (c :: ·) hcut.append,
        (isStringEnd_cons_of_ne hquote).2 ⟨hline, hcut.mem⟩, length_le_of_cons fun l hrest hl => ?_⟩
      exact hcut.longest l hrest ((isStringEnd_cons_of_ne hquote).1 hl).2
    · rw [map_eq_none_iff] at hs
      exact ih.2 hs l hrest ((isStringEnd_cons_of_ne hquote).1 hl).2

theorem splitString?_cuts : Cuts IsString splitString? := by
  constructor
  · intro text s hs
    unfold splitString? at hs
    split at hs
    · obtain ⟨s', hs', rfl⟩ := map_eq_some_iff.1 hs
      exact (splitStringEnd?_cuts.some _ _ hs').cons '"'
    · cases hs
  · intro text hs l hfront hl
    obtain ⟨l, tail, rfl, rfl, hrest, hl⟩ := Led.of_front hl hfront
    rw [splitString?, map_eq_none_iff] at hs
    exact splitStringEnd?_cuts.none _ hs l hrest hl

/-! ### Numbers -/

/-- Digits are cut off where other text starts. -/
theorem splitRun?_digits (h : IsDigits digits) (hrest : StartsApart rest) :
    splitRun? isDigit (digits ++ rest) = some (digits, rest) := by
  refine (splitRun?_cuts isDigit).eq_some_iff.2 ⟨rfl, h, fun l hfront hl => ?_⟩
  have hle := length_le_takeWhile hfront hl.2
  rwa [h.takeWhile_append hrest] at hle

theorem StartsApart.append (h : StartsApart rest) (hne : rest ≠ []) :
    StartsApart (rest ++ tail) := by
  cases rest with
  | nil => exact absurd rfl hne
  | cons c rest => exact h

theorem IsExponent.startsApart (h : IsExponent l) : StartsApart l := by
  obtain ⟨mark, sign, digits, hmark, -, -, rfl⟩ := h
  intro c hc
  cases hc
  rcases hmark with rfl | rfl <;> rfl

theorem IsExponent.ne_nil (h : IsExponent l) : l ≠ [] := by
  obtain ⟨mark, sign, digits, -, -, -, rfl⟩ := h
  exact cons_ne_nil _ _

/-- A sign before digits is cut off as it stands. -/
theorem splitSign_append_digits {sign : List Char} (hsign : sign = [] ∨ sign = ['+'] ∨ sign = ['-'])
    (h : IsDigits digits) : splitSign (sign ++ (digits ++ tail)) = (sign, digits ++ tail) := by
  rcases hsign with rfl | rfl | rfl
  · obtain ⟨d, digits, rfl⟩ := exists_cons_of_ne_nil h.1
    rw [nil_append, cons_append]
    unfold splitSign
    split
    · rename_i heq
      exact absurd (cons.inj heq).1 (h.cons_ne rfl)
    · rename_i heq
      exact absurd (cons.inj heq).1 (h.cons_ne rfl)
    · rfl
  · rfl
  · rfl

theorem splitExponent?_cuts : Cuts IsExponent splitExponent? := by
  constructor
  · intro text s hs
    have happend := (splitExponent?_isCut hs).2
    cases text with
    | nil => cases hs
    | cons c text =>
      rw [splitExponent?] at hs
      obtain ⟨hmark, hs⟩ := ite_none_right_eq_some.1 hs
      obtain ⟨run, hrun, rfl⟩ := map_eq_some_iff.1 hs
      have hcut := (splitRun?_cuts isDigit).some _ _ hrun
      refine ⟨happend, ⟨c, _, _, hmark, splitSign_fst text, hcut.mem, rfl⟩, ?_⟩
      rintro _ ⟨tail, htail⟩ ⟨mark, sign, digits, -, hsign, hdigits, rfl⟩
      have hsplit : splitSign text = (sign, digits ++ tail) := by
        have htext : text = sign ++ (digits ++ tail) := by
          rw [← append_assoc]
          exact (congrArg List.tail htail).symm
        rw [htext, splitSign_append_digits hsign hdigits]
      rw [hsplit] at hcut ⊢
      have hle := hcut.longest digits (prefix_append _ _) hdigits
      simpa using hle
  · rintro text hs _ ⟨tail, rfl⟩ ⟨mark, sign, digits, hmark, hsign, hdigits, rfl⟩
    rw [cons_append, splitExponent?, if_pos hmark, map_eq_none_iff, append_assoc,
      splitSign_append_digits hsign hdigits] at hs
    exact (splitRun?_cuts isDigit).none _ hs digits (prefix_append _ _) hdigits

/-- An exponent behind digits is what it is behind all of them. -/
theorem IsExponent.splitRun? {exponent : List Char} (h : IsExponent exponent)
    (hdigits : IsDigits digits) :
    splitRun? isDigit (digits ++ (exponent ++ tail)) = some (digits, exponent ++ tail) :=
  splitRun?_digits hdigits (h.startsApart.append h.ne_nil)

theorem IsRealEnd.startsApart (h : IsRealEnd l) : StartsApart l := by
  rcases h with ⟨fraction, exponent, -, -, rfl⟩ | h
  · intro c hc
    cases hc
    rfl
  · exact h.startsApart

theorem IsRealEnd.ne_nil (h : IsRealEnd l) : l ≠ [] := by
  rcases h with ⟨fraction, exponent, -, -, rfl⟩ | h
  · exact cons_ne_nil _ _
  · exact h.ne_nil

/-- Without a point in front, only an exponent makes a number real. -/
theorem IsRealEnd.exponent (h : IsRealEnd l) (hfront : l <+: text)
    (hpoint : ∀ tail, text ≠ '.' :: tail) : IsExponent l := by
  rcases h with ⟨fraction, exponent, -, -, rfl⟩ | h
  · obtain ⟨tail, rfl⟩ := hfront
    exact absurd rfl (hpoint _)
  · exact h

theorem not_isExponent_point : ¬IsExponent ('.' :: l) := by
  rintro ⟨mark, sign, digits, hmark, -, -, heq⟩
  rw [← (cons.inj heq).1] at hmark
  exact absurd hmark (by decide)

/-- What may follow a point in front of a text takes all digits, and then at most the exponent. -/
theorem length_le_of_point {run : List Char × List Char} (hrun : splitRun? isDigit text = some run)
    (hl : IsRealEnd ('.' :: l)) (hfront : l <+: text) :
    l.length ≤ run.1.length + ((splitExponent? run.2).elim 0 fun e => e.1.length) := by
  rcases hl with ⟨fraction, exponent, hfraction, hexponent, heq⟩ | hl
  · obtain rfl := (cons.inj heq).2
    rcases hexponent with rfl | hexponent
    · rw [append_nil] at hfront ⊢
      exact Nat.le_add_right_of_le
        (((splitRun?_cuts isDigit).some _ _ hrun).longest fraction hfront hfraction)
    · obtain ⟨tail, rfl⟩ := hfront
      rw [append_assoc, hexponent.splitRun? hfraction] at hrun
      cases hrun
      dsimp only
      cases hsplit : splitExponent? (exponent ++ tail) with
      | none =>
        exact absurd hexponent (splitExponent?_cuts.none _ hsplit _ (prefix_append _ _))
      | some e =>
        have hcut := splitExponent?_cuts.some _ _ hsplit
        have hle := hcut.longest _ (prefix_append _ _) hexponent
        rw [length_append]
        exact Nat.add_le_add_left hle _
  · exact absurd hl not_isExponent_point

theorem splitRealEnd?_cuts : Cuts IsRealEnd splitRealEnd? := by
  constructor
  · intro text s hs
    have happend := (splitRealEnd?_isCut hs).2
    unfold splitRealEnd? at hs
    split at hs
    · rename_i text
      obtain ⟨run, hrun, rfl⟩ := map_eq_some_iff.1 hs
      have hdigits := ((splitRun?_cuts isDigit).some _ _ hrun).mem
      have hle := fun l hfront hl => length_le_of_point (l := l) hrun hl hfront
      cases hsplit : splitExponent? run.2 with
      | some e =>
        rw [hsplit] at happend hle
        have hexponent := (splitExponent?_cuts.some _ _ hsplit).mem
        refine ⟨happend, .inl ⟨_, _, hdigits, .inr hexponent, rfl⟩, length_le_of_cons ?_⟩
        simpa using hle
      | none =>
        rw [hsplit] at happend hle
        refine ⟨happend, .inl ⟨_, [], hdigits, .inl rfl, by rw [append_nil]⟩, ?_⟩
        exact length_le_of_cons hle
    · rename_i hpoint
      have hcut := splitExponent?_cuts.some _ _ hs
      exact ⟨happend, .inr hcut.mem, fun l hfront hl =>
        hcut.longest l hfront (hl.exponent hfront fun tail heq => hpoint tail heq)⟩
  · intro text hs l hfront hl
    unfold splitRealEnd? at hs
    split at hs
    · rename_i text
      rw [map_eq_none_iff] at hs
      rcases hl with ⟨fraction, exponent, hfraction, -, rfl⟩ | hl
      · refine (splitRun?_cuts isDigit).none _ hs fraction ?_ hfraction
        exact (prefix_append _ _).trans (cons_prefix_cons.1 hfront).2
      · obtain ⟨mark, rest, rfl⟩ := exists_cons_of_ne_nil hl.ne_nil
        rw [(cons_prefix_cons.1 hfront).1] at hl
        exact not_isExponent_point hl
    · rename_i hpoint
      exact splitExponent?_cuts.none _ hs l hfront
        (hl.exponent hfront fun tail heq => hpoint tail heq)

theorem splitReal?_cuts : Cuts IsReal splitReal? := by
  -- all digits in front belong to the number
  have hwhole : ∀ {whole rest tail : List Char}, IsDigits whole → IsRealEnd rest →
      splitRun? isDigit (whole ++ rest ++ tail) = some (whole, rest ++ tail) := by
    intro whole rest tail hdigits hrest
    rw [append_assoc]
    exact splitRun?_digits hdigits (hrest.startsApart.append hrest.ne_nil)
  constructor
  · intro text s hs
    have happend := (splitReal?_isCut hs).2
    obtain ⟨run, hrun, hs⟩ := bind_eq_some_iff.1 hs
    obtain ⟨s', hs', rfl⟩ := map_eq_some_iff.1 hs
    have hcut := splitRealEnd?_cuts.some _ _ hs'
    have hdigits := ((splitRun?_cuts isDigit).some _ _ hrun).mem
    refine ⟨happend, ⟨_, _, hdigits, hcut.mem, rfl⟩, ?_⟩
    rintro _ ⟨tail, rfl⟩ ⟨whole, rest, hdigits', hrest, rfl⟩
    cases (hwhole hdigits' hrest).symm.trans hrun
    have hle := hcut.longest rest (prefix_append _ _) hrest
    simpa using hle
  · rintro text hs _ ⟨tail, rfl⟩ ⟨whole, rest, hdigits, hrest, rfl⟩
    rw [splitReal?, hwhole hdigits hrest, bind_some, map_eq_none_iff] at hs
    exact splitRealEnd?_cuts.none _ hs rest (prefix_append _ _) hrest

/-! ### All patterns -/

theorem afterSpelling?_append (spelling rest : List Char) :
    afterSpelling? spelling (spelling ++ rest) = some rest := by
  induction spelling with
  | nil => rfl
  | cons c spelling ih => rw [cons_append, afterSpelling?, if_pos rfl, ih]

theorem splitSpelling?_cuts (spelling : List Char) :
    Cuts (· = spelling) (splitSpelling? spelling) := by
  constructor
  · intro text s hs
    obtain ⟨rest, hrest, rfl⟩ := map_eq_some_iff.1 hs
    exact ⟨append_of_afterSpelling? hrest, rfl, fun l _ hl => hl ▸ .refl⟩
  · rintro text hs _ ⟨rest, rfl⟩ rfl
    rw [splitSpelling?, afterSpelling?_append] at hs
    cases hs

/-- A pattern cuts off the longest piece of its class, wherever there is one. -/
theorem Pattern.cuts (p : Pattern) : Cuts p.Class p.split? := by
  cases p with
  | blanks => exact splitRun?_cuts isBlank
  | lineComment => exact splitLineComment?_cuts
  | blockComment => exact splitBlockComment?_cuts
  | string => exact splitString?_cuts
  | real => exact splitReal?_cuts
  | integer => exact splitRun?_cuts isDigit
  | word => exact splitWord?_cuts
  | symbol _ first others => exact splitSpelling?_cuts (first :: others)

end PLang
