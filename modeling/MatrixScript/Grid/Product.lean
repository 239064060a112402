import MatrixScript.Grid.Basic
import MatrixScript.Number.Arith

/-!
# Sums, multiples and products of grids

The order of every sum is fixed: a product's entry adds its terms from left to right, starting
from `Arith.sumStart`. With doubles another order would give other digits.
-/

namespace MatrixScript.Grid

variable {α : Type} [Arith α] {rows inner cols : Nat}

/-- The sum of two grids. -/
def add (g h : Grid α rows cols) : Grid α rows cols :=
  g.zipWith (· + ·) h

/-- Every entry multiplied by `x`, which stands on the right. -/
def scale (g : Grid α rows cols) (x : α) : Grid α rows cols :=
  g.map (· * x)

/-- The sum of the products of row `i` of `g` with column `j` of `h`. -/
def dot (g : Grid α rows inner) (h : Grid α inner cols) (i : Fin rows) (j : Fin cols) : α :=
  (List.finRange inner).foldl (fun acc l ↦ acc + g.get i l * h.get l j) Arith.sumStart

/-- The product of two grids. -/
def mul (g : Grid α rows inner) (h : Grid α inner cols) : Grid α rows cols :=
  ofFn (g.dot h)

@[simp]
theorem get_mul (g : Grid α rows inner) (h : Grid α inner cols) (i : Fin rows) (j : Fin cols) :
    (g.mul h).get i j = g.dot h i j :=
  get_ofFn _ i j

end MatrixScript.Grid
