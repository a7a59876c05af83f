import PLang.Text.Blank
import PLang.Token.Basic

/-!
# Token patterns

The classes of text that a program is cut into: blanks and comments, which are skipped, and the
lexemes of the token kinds. `Pattern.split?` cuts a piece of a class off the front of a text;
`Pattern.split?_eq_some` says that nothing is lost and that the piece is not empty. The patterns are
tried in the order of `patterns`, in which a longer symbol comes before its beginnings.
-/

namespace PLang

/-- Cuts off the longest run of characters of a class, unless it is empty. -/
def splitRun? (p : Char → Bool) (text : List Char) : Option (List Char × List Char) :=
  if (text.takeWhile p).isEmpty then none else some (text.takeWhile p, text.dropWhile p)

/-- Whether a character is one of the ten ASCII digits. -/
abbrev isDigit (c : Char) : Bool := c.isDigit

/-- Whether a character can start a word. -/
def isWordStart (c : Char) : Bool := c.isAlpha || c == '_'

/-- Whether a character can stand inside a word. -/
def isWordPart (c : Char) : Bool := isWordStart c || isDigit c

/-- Cuts off a word: a letter or an underscore, then letters, underscores and digits. -/
def splitWord? : List Char → Option (List Char × List Char)
  | [] => none
  | c :: text =>
    if isWordStart c then some (c :: text.takeWhile isWordPart, text.dropWhile isWordPart)
    else none

/-- Cuts off a comment that runs to the end of the line and leaves the newline. -/
def splitLineComment? : List Char → Option (List Char × List Char)
  | '/' :: '/' :: text =>
    some ('/' :: '/' :: text.takeWhile (· != '\n'), text.dropWhile (· != '\n'))
  | _ => none

/-- Cuts after the first closing mark of a block comment. -/
def splitCommentEnd? : List Char → Option (List Char × List Char)
  | [] => none
  | '*' :: '/' :: text => some (['*', '/'], text)
  | c :: text => (splitCommentEnd? text).map fun s => (c :: s.1, s.2)

/-- Cuts off a block comment. One that is never closed is no comment. -/
def splitBlockComment? : List Char → Option (List Char × List Char)
  | '/' :: '*' :: text => (splitCommentEnd? text).map fun s => ('/' :: '*' :: s.1, s.2)
  | _ => none

/-- Cuts after the closing quote of a string. A doubled quote belongs to the string, unless the
string is not closed on its line after it: then its first half is the closing quote. -/
def splitStringEnd? : List Char → Option (List Char × List Char)
  | [] => none
  | '"' :: '"' :: text =>
    match splitStringEnd? text with
    | some s => some ('"' :: '"' :: s.1, s.2)
    | none => some (['"'], '"' :: text)
  | '"' :: text => some (['"'], text)
  | c :: text => if c = '\n' then none else (splitStringEnd? text).map fun s => (c :: s.1, s.2)

/-- Cuts off a string with its quotes. -/
def splitString? : List Char → Option (List Char × List Char)
  | '"' :: text => (splitStringEnd? text).map fun s => ('"' :: s.1, s.2)
  | _ => none

/-- Cuts off a sign, if there is one. -/
def splitSign : List Char → List Char × List Char
  | '+' :: text => (['+'], text)
  | '-' :: text => (['-'], text)
  | text => ([], text)

/-- Cuts off an exponent: a mark, an optional sign and digits. -/
def splitExponent? : List Char → Option (List Char × List Char)
  | [] => none
  | c :: text =>
    if c = 'e' ∨ c = 'E' then
      (splitRun? isDigit (splitSign text).2).map fun s =>
        (c :: ((splitSign text).1 ++ s.1), s.2)
    else none

/-- Cuts off what makes a number real, after its whole digits: a fraction with an optional
exponent, or an exponent. -/
def splitRealEnd? : List Char → Option (List Char × List Char)
  | '.' :: text =>
    (splitRun? isDigit text).map fun fraction =>
      match splitExponent? fraction.2 with
      | some e => ('.' :: (fraction.1 ++ e.1), e.2)
      | none => ('.' :: fraction.1, fraction.2)
  | text => splitExponent? text

/-- Cuts off a real number. -/
def splitReal? (text : List Char) : Option (List Char × List Char) :=
  (splitRun? isDigit text).bind fun whole =>
    (splitRealEnd? whole.2).map fun s => (whole.1 ++ s.1, s.2)

/-- What follows a fixed spelling at the front of a text. -/
def afterSpelling? : List Char → List Char → Option (List Char)
  | [], text => some text
  | _ :: _, [] => none
  | c :: spelling, d :: text => if c = d then afterSpelling? spelling text else none

/-- Cuts off a fixed spelling. -/
def splitSpelling? (spelling text : List Char) : Option (List Char × List Char) :=
  (afterSpelling? spelling text).map fun rest => (spelling, rest)

/-- The classes of text. -/
inductive Pattern where
  | blanks
  | lineComment
  | blockComment
  | string
  | real
  | integer
  | word
  /-- A token kind with one spelling, given by its first character and the others. -/
  | symbol (kind : TokenKind) (first : Char) (others : List Char)
deriving DecidableEq

namespace Pattern

/-- Cuts a piece of a class off the front of a text. -/
def split? : Pattern → List Char → Option (List Char × List Char)
  | blanks => splitRun? isBlank
  | lineComment => splitLineComment?
  | blockComment => splitBlockComment?
  | string => splitString?
  | real => splitReal?
  | integer => splitRun? isDigit
  | word => splitWord?
  | symbol _ first others => splitSpelling? (first :: others)

/-- The text of a string without the doubling of its quotes. -/
def undouble : List Char → List Char
  | '"' :: '"' :: text => '"' :: undouble text
  | c :: text => c :: undouble text
  | [] => []

/-- The kind and the value of the token that a lexeme makes, or `none` for skipped text. -/
def token? : Pattern → List Char → Option (TokenKind × String)
  | blanks, _ => none
  | lineComment, _ => none
  | blockComment, _ => none
  | string, lexeme => some (.string, String.ofList (undouble lexeme.tail.dropLast))
  | real, lexeme => some (.real, String.ofList lexeme)
  | integer, lexeme => some (.integer, String.ofList lexeme)
  | word, lexeme => some (.wordKind (String.ofList lexeme), String.ofList lexeme)
  | symbol kind _ _, lexeme => some (kind, String.ofList lexeme)

end Pattern

/-- The patterns in the order in which they are tried. -/
def patterns : List Pattern :=
  [.blanks, .lineComment, .blockComment, .string, .real, .integer, .word,
   .symbol .openBracket '[' [], .symbol .closeBracket ']' [],
   .symbol .openParen '(' [], .symbol .closeParen ')' [],
   .symbol .assignment ':' ['='], .symbol .colon ':' [],
   .symbol .semicolon ';' [], .symbol .comma ',' [],
   .symbol .notEquals '<' ['>'], .symbol .lessEquals '<' ['='], .symbol .less '<' [],
   .symbol .greaterEquals '>' ['='], .symbol .greater '>' [], .symbol .equals '=' [],
   .symbol .plus '+' [], .symbol .dash '-' [], .symbol .slash '/' [], .symbol .star '*' []]

/-- A pattern with the piece of it that was cut off a text, and the rest of the text. -/
structure Piece where
  pattern : Pattern
  lexeme : List Char
  rest : List Char

/-- The piece that the first matching pattern cuts off a text. -/
def firstPiece? (text : List Char) : Option Piece :=
  patterns.findSome? fun p => (p.split? text).map fun s => ⟨p, s.1, s.2⟩

/-! ### Nothing is lost -/

/-- A cut of `text` into two parts, the first of which is not empty. -/
def IsCut (text : List Char) (s : List Char × List Char) : Prop :=
  s.1 ≠ [] ∧ s.1 ++ s.2 = text

theorem splitRun?_isCut {p : Char → Bool} {text : List Char} {s : List Char × List Char}
    (h : splitRun? p text = some s) : IsCut text s := by
  unfold splitRun? at h
  split at h
  · simp at h
  · rename_i hne
    obtain rfl := Option.some.inj h
    exact ⟨by simpa using hne, List.takeWhile_append_dropWhile⟩

theorem splitWord?_isCut {text : List Char} {s : List Char × List Char}
    (h : splitWord? text = some s) : IsCut text s := by
  cases text with
  | nil => simp [splitWord?] at h
  | cons c text =>
    simp only [splitWord?] at h
    split at h
    · obtain rfl := Option.some.inj h
      exact ⟨by simp, by simp [List.takeWhile_append_dropWhile]⟩
    · simp at h

theorem splitLineComment?_isCut {text : List Char} {s : List Char × List Char}
    (h : splitLineComment? text = some s) : IsCut text s := by
  unfold splitLineComment? at h
  split at h
  · obtain rfl := Option.some.inj h
    exact ⟨by simp, by simp [List.takeWhile_append_dropWhile]⟩
  · simp at h

theorem splitCommentEnd?_isCut {text : List Char} {s : List Char × List Char}
    (h : splitCommentEnd? text = some s) : IsCut text s := by
  fun_induction splitCommentEnd? text generalizing s with
  | case1 => simp at h
  | case2 text =>
    obtain rfl := Option.some.inj h
    exact ⟨by simp, rfl⟩
  | case3 c text _ ih =>
    obtain ⟨t, ht, rfl⟩ := Option.map_eq_some_iff.1 h
    exact ⟨by simp, by simpa using (ih ht).2⟩

theorem splitBlockComment?_isCut {text : List Char} {s : List Char × List Char}
    (h : splitBlockComment? text = some s) : IsCut text s := by
  unfold splitBlockComment? at h
  split at h
  · obtain ⟨t, ht, rfl⟩ := Option.map_eq_some_iff.1 h
    exact ⟨by simp, by simpa using (splitCommentEnd?_isCut ht).2⟩
  · simp at h

theorem splitStringEnd?_isCut {text : List Char} {s : List Char × List Char}
    (h : splitStringEnd? text = some s) : IsCut text s := by
  fun_induction splitStringEnd? text generalizing s with
  | case1 => simp at h
  | case2 text t ht ih =>
    obtain rfl := Option.some.inj h
    exact ⟨by simp, by simpa using (ih ht).2⟩
  | case3 text _ _ =>
    obtain rfl := Option.some.inj h
    exact ⟨by simp, rfl⟩
  | case4 text _ =>
    obtain rfl := Option.some.inj h
    exact ⟨by simp, rfl⟩
  | case5 => simp at h
  | case6 c text _ _ _ ih =>
    obtain ⟨t, ht, rfl⟩ := Option.map_eq_some_iff.1 h
    exact ⟨by simp, by simpa using (ih ht).2⟩

theorem splitString?_isCut {text : List Char} {s : List Char × List Char}
    (h : splitString? text = some s) : IsCut text s := by
  unfold splitString? at h
  split at h
  · obtain ⟨t, ht, rfl⟩ := Option.map_eq_some_iff.1 h
    exact ⟨by simp, by simpa using (splitStringEnd?_isCut ht).2⟩
  · simp at h

theorem splitSign_append (text : List Char) : (splitSign text).1 ++ (splitSign text).2 = text := by
  unfold splitSign
  split <;> rfl

theorem splitExponent?_isCut {text : List Char} {s : List Char × List Char}
    (h : splitExponent? text = some s) : IsCut text s := by
  cases text with
  | nil => simp [splitExponent?] at h
  | cons c text =>
    simp only [splitExponent?] at h
    split at h
    · obtain ⟨t, ht, rfl⟩ := Option.map_eq_some_iff.1 h
      refine ⟨by simp, ?_⟩
      simp only [List.cons_append, List.append_assoc, (splitRun?_isCut ht).2, splitSign_append]
    · simp at h

theorem splitRealEnd?_isCut {text : List Char} {s : List Char × List Char}
    (h : splitRealEnd? text = some s) : IsCut text s := by
  unfold splitRealEnd? at h
  split at h
  · obtain ⟨fraction, hf, rfl⟩ := Option.map_eq_some_iff.1 h
    have hcut := (splitRun?_isCut hf).2
    split
    · rename_i e he
      refine ⟨by simp, ?_⟩
      simp only [List.cons_append, List.append_assoc, (splitExponent?_isCut he).2, hcut]
    · exact ⟨by simp, by simpa using hcut⟩
  · exact splitExponent?_isCut h

theorem splitReal?_isCut {text : List Char} {s : List Char × List Char}
    (h : splitReal? text = some s) : IsCut text s := by
  obtain ⟨whole, hw, h⟩ := Option.bind_eq_some_iff.1 h
  obtain ⟨t, ht, rfl⟩ := Option.map_eq_some_iff.1 h
  refine ⟨by simp [(splitRun?_isCut hw).1], ?_⟩
  rw [List.append_assoc, (splitRealEnd?_isCut ht).2, (splitRun?_isCut hw).2]

theorem append_of_afterSpelling? {spelling text rest : List Char}
    (h : afterSpelling? spelling text = some rest) : spelling ++ rest = text := by
  fun_induction afterSpelling? spelling text with
  | case1 text => simpa using h.symm
  | case2 => simp at h
  | case3 c spelling text ih => simpa using ih h
  | case4 => simp at h

theorem splitSpelling?_isCut {spelling text : List Char} {s : List Char × List Char}
    (hne : spelling ≠ []) (h : splitSpelling? spelling text = some s) : IsCut text s := by
  obtain ⟨rest, hr, rfl⟩ := Option.map_eq_some_iff.1 h
  exact ⟨hne, append_of_afterSpelling? hr⟩

/-- A pattern cuts a text in two and takes at least one character. -/
theorem Pattern.split?_eq_some {p : Pattern} {text : List Char} {s : List Char × List Char}
    (h : p.split? text = some s) : IsCut text s := by
  cases p with
  | blanks => exact splitRun?_isCut h
  | lineComment => exact splitLineComment?_isCut h
  | blockComment => exact splitBlockComment?_isCut h
  | string => exact splitString?_isCut h
  | real => exact splitReal?_isCut h
  | integer => exact splitRun?_isCut h
  | word => exact splitWord?_isCut h
  | symbol kind first others => exact splitSpelling?_isCut (by simp) h

/-- The first piece is cut off by its own pattern, and no pattern before it matches. -/
theorem firstPiece?_eq_some {text : List Char} {piece : Piece}
    (h : firstPiece? text = some piece) :
    piece.pattern.split? text = some (piece.lexeme, piece.rest) := by
  obtain ⟨p, _, hp⟩ := List.exists_of_findSome?_eq_some h
  obtain ⟨s, hs, rfl⟩ := Option.map_eq_some_iff.1 hp
  exact hs

/-- After the first piece there is less text left. -/
theorem length_rest_lt {text : List Char} {piece : Piece}
    (h : firstPiece? text = some piece) : piece.rest.length < text.length := by
  have hcut := Pattern.split?_eq_some (firstPiece?_eq_some h)
  have hlen := congrArg List.length hcut.2
  have hpos := List.length_pos_iff.2 hcut.1
  simp only [List.length_append] at hlen hpos
  omega

end PLang
