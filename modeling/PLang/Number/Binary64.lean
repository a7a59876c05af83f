import PLang.Number.Integer

/-!
# Binary floating-point numbers of 64 bits

A number is held by its sign, its whole mantissa and the exponent of two that scales it. Reading a
decimal text gives the nearest number, a tie going to the even mantissa; the text with six
decimals is that of the exact value, rounded the same way. All arithmetic is on whole numbers.
-/

namespace PLang

/-- The quotient of two naturals rounded to the nearest one, a half to the even neighbour. -/
def roundDiv (num den : Nat) : Nat :=
  if den < 2 * (num % den) || (2 * (num % den) == den && num / den % 2 == 1) then num / den + 1
  else num / den

/-- The fraction `num / den` divided by `2 ^ e`, as a numerator and a denominator. -/
def scaleFraction (num den : Nat) (e : Int) : Nat × Nat :=
  if 0 ≤ e then (num, den * Nat.pow 2 e.toNat) else (num * Nat.pow 2 (-e).toNat, den)

/-- A number of the 64-bit binary format. -/
inductive Binary64 where
  /-- The value `mantissa * 2 ^ exponent` with a sign. -/
  | finite (negative : Bool) (mantissa : Nat) (exponent : Int)
  | infinite (negative : Bool)
  /-- No number. It has a sign all the same, which its text does not show. -/
  | nan (negative : Bool)
deriving DecidableEq

namespace Binary64

/-- The least exponent, that of zero and of the smallest numbers. -/
def minExponent : Int := -1074

/-- The greatest exponent of a finite number. -/
def maxExponent : Int := 971

/-- The least mantissa of 53 bits. -/
def leastFull : Nat := 0x10000000000000

/-- Zero with a sign. -/
def zero (negative : Bool) : Binary64 := .finite negative 0 minExponent

/-- The exponent at which a positive fraction has a mantissa of 53 bits, or the least exponent. -/
def exponentOf (num den : Nat) : Int :=
  let k : Int := (num.log2 : Int) - den.log2
  let scaled := scaleFraction num den k
  max (if scaled.2 ≤ scaled.1 then k - 52 else k - 53) minExponent

/-- The number nearest to a positive fraction. -/
def ofFraction (negative : Bool) (num den : Nat) : Binary64 :=
  let e := exponentOf num den
  let scaled := scaleFraction num den e
  let m := roundDiv scaled.1 scaled.2
  let rounded := if m = 2 * leastFull then (leastFull, e + 1) else (m, e)
  if maxExponent < rounded.2 then .infinite negative else .finite negative rounded.1 rounded.2

/-- The number nearest to `digits * 10 ^ exponent`. Sizes beyond every finite number, or below half
the least one, are decided by the number of digits alone. -/
def ofDecimal (negative : Bool) (digits : Nat) (exponent : Int) : Binary64 :=
  let size : Int := (Nat.toDigits 10 digits).length + exponent
  if digits = 0 ∨ size < -330 then zero negative
  else if 310 < size then .infinite negative
  else if 0 ≤ exponent then ofFraction negative (digits * Nat.pow 10 exponent.toNat) 1
  else ofFraction negative digits (Nat.pow 10 (-exponent).toNat)

/-- The same with the other sign, also where there is no number. -/
def negate : Binary64 → Binary64
  | .finite negative m e => .finite (!negative) m e
  | .infinite negative => .infinite (!negative)
  | .nan negative => .nan (!negative)

/-- The sign bit in its place. -/
def signBit (negative : Bool) : Nat := if negative then 0x8000000000000000 else 0

/-- The bits of the interchange format, as a natural. -/
def bits : Binary64 → Nat
  | .finite negative m e => signBit negative +
      (if m < leastFull then m else (e + 1075).toNat * leastFull + (m - leastFull))
  | .infinite negative => signBit negative + 0x7ff0000000000000
  | .nan negative => signBit negative + 0x7ff8000000000000

/-- Digits with zeros in front up to a width. -/
def padZeros (width : Nat) (digits : List Char) : List Char :=
  List.replicate (width - digits.length) '0' ++ digits

/-- The bits as sixteen hexadecimal digits. -/
def hexText (x : Binary64) : String :=
  String.ofList (padZeros 16 (Nat.toDigits 16 x.bits))

/-- The value in millionths, rounded, for a mantissa and an exponent. -/
def millionths (m : Nat) (e : Int) : Nat :=
  let scaled := scaleFraction (m * 1000000) 1 (-e)
  roundDiv scaled.1 scaled.2

/-- A minus sign for negative numbers. -/
def signText (negative : Bool) : String := if negative then "-" else ""

/-- The text with six decimals. -/
def fixedText : Binary64 → String
  | .finite negative m e =>
    let n := millionths m e
    signText negative ++ toString (n / 1000000) ++ "." ++
      String.ofList (padZeros 6 (Nat.toDigits 10 (n % 1000000)))
  | .infinite negative => signText negative ++ "inf"
  | .nan _ => "NaN"

/-- An exponent: a mark, an optional sign and at least one digit up to the end. No text is the
exponent zero. -/
def exponent? : List Char → Option Int
  | [] => some 0
  | mark :: text => if mark = 'e' ∨ mark = 'E' then signed? text else none

/-- The digits of a decimal as one natural, and the exponent of ten that scales them. There is a
digit before or after the point. -/
def decimal? (text : List Char) : Option (Nat × Int) :=
  let whole := text.takeWhile Char.isDigit
  let (fraction, rest) :=
    match text.dropWhile Char.isDigit with
    | '.' :: rest => (rest.takeWhile Char.isDigit, rest.dropWhile Char.isDigit)
    | rest => ([], rest)
  if whole.isEmpty && fraction.isEmpty then none
  else (exponent? rest).map fun e =>
    (Nat.ofDigitChars 10 (whole ++ fraction) 0, e - fraction.length)

/-- The values that are spelled by a word, in any case. -/
def ofWord? (negative : Bool) (text : List Char) : Option Binary64 :=
  let word := String.ofList (text.map Char.toLower)
  if word = "inf" ∨ word = "infinity" then some (.infinite negative)
  else if word = "nan" then some (.nan negative)
  else none

/-- The number that a text without sign spells. -/
def ofUnsigned? (negative : Bool) (text : List Char) : Option Binary64 :=
  match ofWord? negative text with
  | some x => some x
  | none => (decimal? text).map fun d => ofDecimal negative d.1 d.2

/-- The number nearest to what a text spells, with an optional sign. -/
def ofText? (text : String) : Option Binary64 :=
  match text.toList with
  | '+' :: rest => ofUnsigned? false rest
  | '-' :: rest => ofUnsigned? true rest
  | rest => ofUnsigned? false rest

end Binary64

end PLang
