/-!
# Signed 32-bit integers

Reading the decimal text of a signed 32-bit integer, and negation in 32-bit words.
-/

namespace PLang

/-- The value of a run of ASCII digits, or `none` if there is another character. -/
def digitsValue? (digits : List Char) : Option Nat :=
  if digits.all Char.isDigit then some (Nat.ofDigitChars 10 digits 0) else none

/-- The value of a non-empty run of ASCII digits. -/
def natural? (digits : List Char) : Option Nat :=
  if digits.isEmpty then none else digitsValue? digits

/-- A number with an optional sign in front. -/
def signed? : List Char → Option Int
  | '+' :: digits => (natural? digits).map Int.ofNat
  | '-' :: digits => (natural? digits).map fun n => -Int.ofNat n
  | digits => (natural? digits).map Int.ofNat

/-- Whether a value fits in a signed 32-bit word. -/
def fitsWord (value : Int) : Bool :=
  -0x80000000 ≤ value && value ≤ 0x7fffffff

/-- The signed 32-bit integer that a text spells: an optional sign and at least one digit, within
range. -/
def wordOfText? (text : String) : Option Int :=
  (signed? text.toList).filter fitsWord

/-- Negation in 32-bit words. -/
def negateWord (value : Int) : Int :=
  (-value).bmod 0x100000000

end PLang
