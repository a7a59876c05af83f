import PLang.Source.Position

/-!
# Cursors

A cursor walks over a text by byte counts and keeps its line and column in step. It may stop
anywhere, also between the bytes of one character.
-/

namespace PLang

/-- A text together with how much of it has been passed. -/
structure Cursor where
  text : List Char
  position : Position

namespace Cursor

/-- The cursor at the start of a text. -/
def ofText (text : List Char) : Cursor := ⟨text, Position.start⟩

/-- The bytes that lie ahead. -/
def bytesAhead (c : Cursor) : List UInt8 :=
  (utf8Bytes c.text).drop c.position.offset

/-- Moves `n` bytes forward, or to the end of the text if it is nearer. -/
def advance (c : Cursor) (n : Nat) : Cursor :=
  ⟨c.text, c.position.afterBytes (c.bytesAhead.take n)⟩

/-- The location of the cursor. -/
def location (c : Cursor) : Location := c.position.location

/-- The span of the next `n` bytes, taken to lie on one line. -/
def spanOf (c : Cursor) (n : Nat) : Span := c.position.spanOf n

/-- Whether the whole text has been passed. -/
def atEnd (c : Cursor) : Bool :=
  decide ((utf8Bytes c.text).length ≤ c.position.offset)

/-- The text that lies ahead. -/
def remainder (c : Cursor) : List Char :=
  dropBytes c.position.offset c.text

/-- The next character, or the null character at the end of the text. -/
def current (c : Cursor) : Char :=
  c.remainder.headD '\x00'

@[simp]
theorem text_advance (c : Cursor) (n : Nat) : (c.advance n).text = c.text := rfl

/-- A step takes exactly the bytes that it passes off those that lie ahead. -/
theorem bytesAhead_advance (c : Cursor) (n : Nat) :
    (c.advance n).bytesAhead = c.bytesAhead.drop n := by
  simp only [bytesAhead, advance, Position.offset_afterBytes, List.length_take, List.length_drop,
    List.drop_drop]
  by_cases h : n ≤ (utf8Bytes c.text).length - c.position.offset
  · rw [Nat.min_eq_left h]
  · rw [Nat.min_eq_right (by omega), List.drop_eq_nil_of_le (by omega),
      List.drop_eq_nil_of_le (by omega)]

/-- Two steps are one step of both lengths. -/
theorem advance_advance (c : Cursor) (m n : Nat) :
    (c.advance m).advance n = c.advance (m + n) := by
  have h := bytesAhead_advance c m
  simp only [advance] at h ⊢
  rw [h, ← Position.afterBytes_append, List.take_add]

end Cursor

end PLang
