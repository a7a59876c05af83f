import PLang.Source.Location

/-!
# Positions

A position says how far a reader has come in a text: how many bytes lie behind it, which line
it is on, and at which byte that line starts. `Position.afterByte` is the only step; reading
more text is a fold of it, so a position depends on the bytes read and not on how they were cut.
-/

namespace PLang

/-- The UTF-8 encoding of a list of characters. -/
def utf8Bytes (text : List Char) : List UInt8 :=
  text.flatMap String.utf8EncodeChar

/-- The number of bytes that a list of characters takes in UTF-8. -/
def byteLength (text : List Char) : Nat :=
  (utf8Bytes text).length

/-- What is left of a text after its first `n` bytes. A character that these bytes cut in two
is left out. -/
def dropBytes : Nat → List Char → List Char
  | 0, text => text
  | _ + 1, [] => []
  | n + 1, c :: text => dropBytes (n + 1 - c.utf8Size) text

/-- How far a reader has come in a text. -/
structure Position where
  /-- The number of bytes read. -/
  offset : Nat
  /-- The number of the current line. -/
  line : UInt32
  /-- The offset at which the current line starts. -/
  lineStart : Nat
deriving DecidableEq

namespace Position

/-- The position before any text is read. -/
def start : Position := ⟨0, 1, 0⟩

/-- The location of the byte that is read next. The column is taken as a 32-bit number. -/
def location (p : Position) : Location :=
  ⟨p.line, .ofNat (p.offset - p.lineStart + 1)⟩

/-- One byte further; a newline byte starts a new line. -/
def afterByte (p : Position) (byte : UInt8) : Position :=
  if byte = 10 then ⟨p.offset + 1, p.line + 1, p.offset + 1⟩
  else ⟨p.offset + 1, p.line, p.lineStart⟩

/-- Further by several bytes. -/
def afterBytes (p : Position) (bytes : List UInt8) : Position :=
  bytes.foldl afterByte p

/-- Further by the encoding of a text. -/
def afterText (p : Position) (text : List Char) : Position :=
  p.afterBytes (utf8Bytes text)

/-- The span of a token of `n` bytes that starts here and stays on its line. The length is
taken as a 32-bit number. -/
def spanOf (p : Position) (n : Nat) : Span :=
  ⟨p.location, ⟨p.line, p.location.col + .ofNat n⟩⟩

@[simp]
theorem afterBytes_nil (p : Position) : p.afterBytes [] = p := rfl

@[simp]
theorem afterBytes_append (p : Position) (xs ys : List UInt8) :
    p.afterBytes (xs ++ ys) = (p.afterBytes xs).afterBytes ys := by
  simp [afterBytes]

@[simp]
theorem afterText_nil (p : Position) : p.afterText [] = p := rfl

@[simp]
theorem afterText_append (p : Position) (xs ys : List Char) :
    p.afterText (xs ++ ys) = (p.afterText xs).afterText ys := by
  simp [afterText, utf8Bytes]

@[simp]
theorem offset_afterByte (p : Position) (byte : UInt8) :
    (p.afterByte byte).offset = p.offset + 1 := by
  unfold afterByte
  split <;> rfl

@[simp]
theorem offset_afterBytes (p : Position) (bytes : List UInt8) :
    (p.afterBytes bytes).offset = p.offset + bytes.length := by
  induction bytes generalizing p with
  | nil => rfl
  | cons byte bytes ih =>
    have h := ih (p.afterByte byte)
    simp only [afterBytes, List.foldl_cons, List.length_cons] at h ⊢
    rw [h, offset_afterByte]
    omega

end Position

end PLang
