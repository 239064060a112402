import MatrixScript.Number.Binary64

/-!
# Decimal numerals

The grammar of number texts and the double that a numeral denotes. A numeral is an optional
minus, digits with an optional point among them (at least one digit in all) and an optional
power of ten. There is no plus in front, no blank and no name for a non-finite number.

A numeral is read into a natural number and a power of ten, without loss; only then is the
value rounded, once, to the nearest double. A numeral whose value rounds beyond the largest
double denotes nothing.
-/

namespace MatrixScript.Number

/-- The exact value of a numeral: `± digits * 10 ^ exponent`. -/
structure Decimal where
  /-- Whether the numeral starts with a minus; it matters for zero too. -/
  negative : Bool
  /-- All digits of the numeral read as one integer, the point left out. -/
  digits : Nat
  /-- The power of ten that the integer is multiplied by. -/
  exponent : Int
deriving DecidableEq, Repr

namespace Decimal

/-- The number that a row of digits writes in base ten. -/
def ofDigits (cs : List Char) : Nat :=
  Nat.ofDigitChars 10 cs 0

/-- Reads the digits of an exponent to the end of the text; there has to be one. -/
def readExponentDigits? (cs : List Char) : Option Nat :=
  if !cs.isEmpty && cs.all Char.isDigit then some (ofDigits cs) else none

/-- Reads what follows the digits of a numeral: nothing, or a power of ten. -/
def readExponent? : List Char → Option Int
  | [] => some 0
  | c :: cs =>
    if c = 'e' ∨ c = 'E' then
      match cs with
      | '+' :: ds => (readExponentDigits? ds).map Int.ofNat
      | '-' :: ds => (readExponentDigits? ds).map fun n ↦ -(n : Int)
      | ds => (readExponentDigits? ds).map Int.ofNat
    else none

/-- The fraction digits after a point, if there is a point, and the rest of the text. -/
def splitFraction : List Char → List Char × List Char
  | '.' :: cs => cs.span Char.isDigit
  | cs => ([], cs)

/-- Reads a numeral that has no sign. -/
def readUnsigned? (negative : Bool) (cs : List Char) : Option Decimal :=
  let (whole, rest) := cs.span Char.isDigit
  let (fraction, rest) := splitFraction rest
  if whole.isEmpty && fraction.isEmpty then none
  else
    (readExponent? rest).map fun e ↦
      ⟨negative, ofDigits (whole ++ fraction), e - fraction.length⟩

/-- Reads a numeral that makes up a whole text. -/
def read? : List Char → Option Decimal
  | '-' :: cs => readUnsigned? true cs
  | cs => readUnsigned? false cs

/-- The power of ten, moved into the range that matters. Beyond `10 ^ 400` every integer is
past the doubles, and below `10 ^ -(log2 n + 400)` the integer `n` is brought below half of the
least double, so that powers outside this range give the same double as its ends. -/
def clampedExponent (d : Decimal) : Int :=
  max (min d.exponent 400) (-((d.digits.log2 : Int) + 400))

/-- The magnitude of a decimal as a quotient. -/
def quotient (d : Decimal) : Nat × Nat :=
  let e := d.clampedExponent
  if 0 ≤ e then (d.digits * pow10 e.toNat, 1) else (d.digits, pow10 (-e).toNat)

/-- The finite double nearest to a decimal; none if it rounds beyond the largest one. -/
def toFloat? (d : Decimal) : Option Float :=
  ofPattern? d.negative (nearestPattern d.quotient.1 d.quotient.2)

end Decimal

/-- The double that a text denotes as a numeral. -/
def read? (cs : List Char) : Option Float :=
  (Decimal.read? cs).bind Decimal.toFloat?

end MatrixScript.Number
