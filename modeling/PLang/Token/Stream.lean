import PLang.Token.Basic

/-!
# Token streams

A stream is the token that a reader looks at and the tokens after it. The last token stays current
however far the reader goes on.
-/

namespace PLang

/-- The current token and the ones after it. -/
structure TokenStream where
  current : Token
  rest : List Token

namespace TokenStream

/-- The stream of a list of tokens. If the last one does not end the file, such a token is put after
it. -/
def ofList : List Token → TokenStream
  | [] => ⟨.endOfFile ⟨.nowhere, .nowhere⟩, []⟩
  | first :: rest =>
    let last := (first :: rest).getLastD first
    if last.kind = .endOfFile then ⟨first, rest⟩
    else ⟨first, rest ++ [.endOfFile ⟨last.span.stop, last.span.stop⟩]⟩

/-- The stream after its current token. -/
def advance (s : TokenStream) : TokenStream :=
  match s.rest with
  | [] => s
  | next :: rest => ⟨next, rest⟩

/-- The token `n` places after the current one, or the last one. -/
def peek (s : TokenStream) (n : Nat) : Token :=
  ((s.current :: s.rest)[n]?).getD (s.rest.getLastD s.current)

@[simp]
theorem peek_zero (s : TokenStream) : s.peek 0 = s.current := rfl

end TokenStream

end PLang
