import PLang.Error
import PLang.Source.Position
import PLang.Token.Pattern

/-!
# From text to tokens

A text is cut into pieces from the left. Skipped pieces leave nothing, every other piece leaves one
token, and the end of the text leaves the last token. A place where no pattern matches is an error.
-/

namespace PLang

/-- The tokens of a text that starts at a position. -/
def scan (p : Position) (text : List Char) : Except Error (List Token) :=
  match text with
  | [] => .ok [.endOfFile (p.spanOf 0)]
  | c :: tail =>
    match hpiece : firstPiece? (c :: tail) with
    | none => .error ⟨.unrecognisedToken (String.ofList [c]), p.location⟩
    | some piece =>
      have := length_rest_lt hpiece
      match scan (p.afterText piece.lexeme) piece.rest with
      | .error e => .error e
      | .ok tokens =>
        match piece.pattern.token? piece.lexeme with
        | none => .ok tokens
        | some (kind, value) => .ok (⟨kind, value, p.spanOf (byteLength piece.lexeme)⟩ :: tokens)
termination_by text.length
decreasing_by exact this

/-- The tokens of a source text, ended by the end-of-file token. -/
def tokenize (source : String) : Except Error (List Token) :=
  scan .start source.toList

end PLang
