import MatrixScript.Number.Rounding

/-!
# Doubles as scaled integers

A double is read as a sign and a magnitude `m * 2 ^ q` with natural `m`, straight from its bit
pattern, and the double nearest to a quotient of natural numbers is computed as a bit pattern.
Both directions are exact integer arithmetic, so nothing here depends on how a machine rounds.

The bit patterns of the non-negative doubles are in the order of their values, which gives the
one formula behind `nearestPattern`: the pattern of `m * 2 ^ q` with `m < 2 ^ 53` (and
`2 ^ 52 ≤ m` unless `q = -1074`) is `(q + 1074) * 2 ^ 52 + m`, also when rounding has carried
`m` up to `2 ^ 53`.
-/

namespace MatrixScript.Number

/-- What a double stands for. -/
inductive Parts
  /-- Not a number. -/
  | nan
  /-- One of the two infinities. -/
  | infinite (negative : Bool)
  /-- The number `± mantissa * 2 ^ exponent`. -/
  | finite (negative : Bool) (mantissa : Nat) (exponent : Int)
deriving DecidableEq, Repr

/-- The pattern of positive infinity, and the first one that is not of a finite magnitude. -/
def infinityPattern : Nat :=
  2047 * pow2 52

/-- Reads a bit pattern of 64 bits: one of sign, eleven of exponent, 52 of fraction. -/
def Parts.ofPattern (bits : Nat) : Parts :=
  let negative : Bool := bits / pow2 63 % 2 == 1
  let biased : Nat := bits / pow2 52 % 2048
  let fraction : Nat := bits % pow2 52
  if biased = 2047 then
    if fraction = 0 then .infinite negative else .nan
  else if biased = 0 then .finite negative fraction (-1074)
  else .finite negative (pow2 52 + fraction) ((biased : Int) - 1075)

/-- The parts of a double. -/
def Parts.ofFloat (x : Float) : Parts :=
  .ofPattern x.toBits.toNat

/-- A quotient `num / den` divided by `2 ^ q`, as a quotient again. -/
def scaleDown (num den : Nat) (q : Int) : Nat × Nat :=
  if 0 ≤ q then (num, den * pow2 q.toNat) else (num * pow2 (-q).toNat, den)

/-- The exponent at which `num / den` is rounded: the least `q ≥ -1074` for which
`num / den / 2 ^ q` is below `2 ^ 53`. Comparing lengths in bits leaves two candidates. -/
def roundingExponent (num den : Nat) : Int :=
  let q := max ((num.log2 : Int) - den.log2 - 53) (-1074)
  let (a, b) := scaleDown num den q
  if pow2 53 ≤ a / b then q + 1 else q

/-- The bit pattern, sign bit clear, of the double nearest to `num / den`, a tie going to the
even pattern. It is `infinityPattern` or more when the quotient is beyond the doubles. -/
def nearestPattern (num den : Nat) : Nat :=
  if num = 0 then 0
  else
    let q := roundingExponent num den
    let (a, b) := scaleDown num den q
    (q + 1074).toNat * pow2 52 + roundDiv a b

/-- The finite double with the given sign and pattern, if the pattern is one of a finite
magnitude. -/
def ofPattern? (negative : Bool) (pattern : Nat) : Option Float :=
  if pattern < infinityPattern then
    some (Float.ofBits (UInt64.ofNat (pattern + if negative then pow2 63 else 0)))
  else none

end MatrixScript.Number
