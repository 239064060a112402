/-!
# The arithmetic that matrices are computed in

The matrix operations are written once, over any type with the operations of `Arith`. Scripts
run at `Float`; the same operations at `Rat` compute without rounding, which is what exact
statements about elimination are about.

The class holds operations and no laws: doubles satisfy next to none of the laws of a field.
What a comparison means for a value that is not a number is part of the instance.
-/

namespace MatrixScript

/-- Operations on matrix entries. -/
class Arith (α : Type) extends Add α, Sub α, Mul α, Div α, Neg α where
  /-- The entry of a zero matrix. -/
  zero : α
  /-- The value a product of pivots starts from. -/
  one : α
  /-- The value a sum of products starts from. -/
  sumStart : α
  /-- A pivot counts as zero up to this fraction of the largest coefficient. -/
  tolerance : α
  /-- The magnitude of an entry. -/
  abs : α → α
  /-- Whether the first value is at most the second. -/
  atMost : α → α → Bool
  /-- Whether the first value is less than the second. -/
  below : α → α → Bool
  /-- Whether the first magnitude is at most the second in the total order that ranks pivots. -/
  ranksAtMost : α → α → Bool
  /-- Whether a value is zero. -/
  isZero : α → Bool

/-- Doubles. A sum starts from negative zero, so that a sum of negative zeros is one. Nothing
compares with a value that is not a number, except that the ranking of pivots puts it last: the
bit patterns of magnitudes are in the order of the magnitudes, with that value at the end. -/
instance : Arith Float where
  zero := 0.0
  one := 1.0
  sumStart := -0.0
  tolerance := 1e-12
  abs := Float.abs
  atMost x y := decide (x ≤ y)
  below x y := decide (x < y)
  ranksAtMost x y := decide (x.toBits ≤ y.toBits)
  isZero x := x == 0.0

/-- Exact rational arithmetic. -/
instance : Arith Rat where
  add := Rat.add
  sub := Rat.sub
  mul := Rat.mul
  div := Rat.div
  neg := Rat.neg
  zero := 0
  one := 1
  sumStart := 0
  tolerance := Rat.div 1 1000000000000
  abs := Rat.abs
  atMost x y := !y.blt x
  below x y := x.blt y
  ranksAtMost x y := !y.blt x
  isZero x := x.num == 0

end MatrixScript
