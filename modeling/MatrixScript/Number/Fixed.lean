import MatrixScript.Number.Binary64

/-!
# Doubles with a fixed number of decimals

The text of a double is its exact value rounded to six decimals, a half going to the even last
digit, written out in full. The sign is kept when the rounded value is zero.
-/

namespace MatrixScript.Number

/-- How many decimals a printed number has. -/
def places : Nat := 6

/-- The magnitude `m * 2 ^ q` counted in units of `10 ^ -p`, rounded to an integer. -/
def unitsOf (p m : Nat) (q : Int) : Nat :=
  if 0 ≤ q then m * pow2 q.toNat * pow10 p else roundDiv (m * pow10 p) (pow2 (-q).toNat)

/-- Writes `n` units of `10 ^ -p` with a point before the last `p` digits. -/
def writeUnits (p n : Nat) : List Char :=
  Nat.toDigits 10 (n / pow10 p) ++ '.' :: (Nat.toDigits 10 (n % pow10 p)).leftpad p '0'

/-- The sign of a number text. -/
def signText (negative : Bool) : List Char :=
  if negative then ['-'] else []

/-- The printed form of a double, given its parts. -/
def Parts.text : Parts → List Char
  | .nan => "NaN".toList
  | .infinite negative => signText negative ++ "inf".toList
  | .finite negative m q => signText negative ++ writeUnits places (unitsOf places m q)

/-- The printed form of a double. -/
def text (x : Float) : String :=
  String.ofList (Parts.ofFloat x).text

end MatrixScript.Number
