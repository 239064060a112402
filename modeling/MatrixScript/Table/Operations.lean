import MatrixScript.Grid.Elimination
import MatrixScript.Machine
import MatrixScript.Table.Basic

/-!
# Operations on tables

Each operation checks that the shapes go together and then computes on grids, where shapes
cannot go wrong any more.

A machine may have no memory for what comes out of an operation, or no size for the number of
columns that it asks for. Of operations on matrices that a machine holds, three can come to this: a
product may have more cells than both factors together, and a system of equations has to have one
more column than it has rows. On a machine they have a result only if they do not come to this.
-/

namespace MatrixScript.Table

variable {α : Type} [Arith α]

/-- The sum of two tables of one shape. -/
def add (s t : Table α) : Except Error (Table α) :=
  if h : t.rows = s.rows ∧ t.cols = s.cols then
    .ok ⟨s.rows, s.cols, s.grid.add (t.grid.cast h.1 h.2)⟩
  else .error (.mismatch .addition s.shape t.shape)

/-- Every entry multiplied by `x`. -/
def scale (t : Table α) (x : α) : Table α :=
  ⟨t.rows, t.cols, t.grid.scale x⟩

/-- The product of two tables, the first with as many columns as the second has rows. -/
def mul (s t : Table α) : Except Error (Table α) :=
  if h : t.rows = s.cols then
    .ok ⟨s.rows, t.cols, s.grid.mul (t.grid.cast h rfl)⟩
  else .error (.mismatch .multiplication s.shape t.shape)

/-- Forward elimination of an augmented matrix. -/
def reduce (t : Table α) : Except Error (Table α) :=
  match t.grid.reduce with
  | some g => .ok ⟨t.rows, t.cols, g⟩
  | none => .error .singular

/-- Solves a triangular augmented system. -/
def substitute (t : Table α) : Except Error (Table α) :=
  if h : t.cols = t.rows + 1 then
    match (t.grid.cast rfl h).substitute with
    | some g => .ok ⟨t.rows, 1, g⟩
    | none => .error .singular
  else .error (.notAugmented t.rows t.cols)

/-- The determinant of a square table. -/
def det (t : Table α) : Except Error α :=
  if h : t.cols = t.rows then .ok (t.grid.cast rfl h).det
  else .error (.notSquare t.rows t.cols)

/-- Solves an augmented system. -/
def solve (t : Table α) : Except Error (Table α) :=
  if h : t.cols = t.rows + 1 then
    match (t.grid.cast rfl h).solve with
    | some g => .ok ⟨t.rows, 1, g⟩
    | none => .error .singular
  else .error (.notAugmented t.rows t.cols)

/-! ### On a machine -/

/-- The product of two tables on a machine, which has to have room for it. -/
def mulOn? (m : Machine) (s t : Table α) : Option (Except Error (Table α)) :=
  if s.cols = t.rows ∧ m.capacity ≤ s.rows * t.cols then none else some (s.mul t)

/-- Solves a triangular augmented system on a machine, which has to have a size for one more column
than there are rows. -/
def substituteOn? (m : Machine) (t : Table α) : Option (Except Error (Table α)) :=
  if t.rows + 1 < m.sizes then some t.substitute else none

/-- Solves an augmented system on a machine, which has to have a size for one more column than there
are rows. -/
def solveOn? (m : Machine) (t : Table α) : Option (Except Error (Table α)) :=
  if t.rows + 1 < m.sizes then some t.solve else none

end MatrixScript.Table
