import PLang.Source.Location

/-!
# Tokens

The kinds of token, their fixed spellings and the reserved words.
-/

namespace PLang

/-- The kinds of token. -/
inductive TokenKind where
  | endOfFile
  | integer
  | real
  | string
  | identifier
  | openBracket
  | closeBracket
  | openParen
  | closeParen
  | assignment
  | equals
  | notEquals
  | less
  | lessEquals
  | greater
  | greaterEquals
  | semicolon
  | colon
  | comma
  | plus
  | dash
  | slash
  | star
  | andWord
  | arrayWord
  | beginWord
  | booleanWord
  | doWord
  | elseWord
  | endWord
  | falseWord
  | forWord
  | ifWord
  | integerWord
  | modWord
  | notWord
  | ofWord
  | orWord
  | printWord
  | readWord
  | realWord
  | returnWord
  | stringWord
  | thenWord
  | toWord
  | trueWord
  | varWord
  | whileWord
deriving DecidableEq, Inhabited

namespace TokenKind

/-- The kind's name, as token descriptions show it. -/
def name : TokenKind → String
  | endOfFile => "EOF"
  | integer => "Integer"
  | real => "Real"
  | string => "String"
  | identifier => "Identifier"
  | openBracket => "OpenBracket"
  | closeBracket => "CloseBracket"
  | openParen => "OpenParen"
  | closeParen => "CloseParen"
  | assignment => "Assignment"
  | equals => "Equals"
  | notEquals => "NotEquals"
  | less => "Less"
  | lessEquals => "LessEquals"
  | greater => "Greater"
  | greaterEquals => "GreaterEquals"
  | semicolon => "Semicolon"
  | colon => "Colon"
  | comma => "Comma"
  | plus => "Plus"
  | dash => "Dash"
  | slash => "Slash"
  | star => "Star"
  | andWord => "And"
  | arrayWord => "Array"
  | beginWord => "Begin"
  | booleanWord => "BooleanType"
  | doWord => "Do"
  | elseWord => "Else"
  | endWord => "End"
  | falseWord => "False"
  | forWord => "For"
  | ifWord => "If"
  | integerWord => "IntegerType"
  | modWord => "Mod"
  | notWord => "Not"
  | ofWord => "Of"
  | orWord => "Or"
  | printWord => "Print"
  | readWord => "Read"
  | realWord => "RealType"
  | returnWord => "Return"
  | stringWord => "StringType"
  | thenWord => "Then"
  | toWord => "To"
  | trueWord => "True"
  | varWord => "Var"
  | whileWord => "While"

/-- The reserved words and their kinds. -/
def reservedWords : List (String × TokenKind) :=
  [("and", andWord), ("array", arrayWord), ("begin", beginWord), ("boolean", booleanWord),
   ("do", doWord), ("else", elseWord), ("end", endWord), ("false", falseWord), ("for", forWord),
   ("if", ifWord), ("integer", integerWord), ("mod", modWord), ("not", notWord), ("of", ofWord),
   ("or", orWord), ("print", printWord), ("read", readWord), ("real", realWord),
   ("return", returnWord), ("string", stringWord), ("then", thenWord), ("to", toWord),
   ("true", trueWord), ("var", varWord), ("while", whileWord)]

/-- The kind of a reserved word, or `none` for any other text. -/
def reserved? (word : String) : Option TokenKind :=
  reservedWords.lookup word

/-- The kind of a word: reserved, or an identifier. -/
def wordKind (word : String) : TokenKind :=
  (reserved? word).getD identifier

end TokenKind

/-- A token: its kind, its text and where it stands. The text of a string token is what the
quotes enclose, each doubled quote made single. -/
structure Token where
  kind : TokenKind
  value : String
  span : Span
deriving DecidableEq, Inhabited

namespace Token

/-- Where a token starts. -/
def location (t : Token) : Location := t.span.start

/-- The token that ends every stream. -/
def endOfFile (span : Span) : Token := ⟨.endOfFile, "EOF", span⟩

/-- A description of the token on three lines. -/
def text (t : Token) : String :=
  "Token \x7b\nkind: " ++ t.kind.name ++ ",\nvalue: " ++ t.value ++ "\x7d"

end Token

end PLang
