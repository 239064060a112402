import MatrixScript.Grid.Basic
import MatrixScript.Number.Fixed

/-!
# Tables

A table is a matrix that carries its dimensions as data: a grid together with its numbers of
rows and columns. Values of a script are tables, since a script's matrices get their dimensions
when it runs.

A table made of rows has at least one row and one column (`Table.ofRows`). Tables without cells
come out of computations on other tables without cells only.
-/

namespace MatrixScript

/-- A matrix of any dimensions. -/
structure Table (α : Type) where
  /-- The number of rows. -/
  rows : Nat
  /-- The number of columns. -/
  cols : Nat
  /-- The entries. -/
  grid : Grid α rows cols
deriving DecidableEq

namespace Table

/-! ### What can be wrong with tables -/

/-- The operations that ask for shapes that go together. -/
inductive Operation
  | addition
  | multiplication
deriving DecidableEq, Repr

/-- The name of an operation in a report. -/
def Operation.text : Operation → String
  | .addition => "elementwise addition"
  | .multiplication => "matrix multiplication"

/-- Why an operation on tables has no result. -/
inductive Error
  /-- There is no row, or the first row has no entry. -/
  | empty
  /-- A row, counted from one, is not as long as the first row. -/
  | ragged (row expected found : Nat)
  /-- The shapes of two operands do not go together. -/
  | mismatch (operation : Operation) (left right : Nat × Nat)
  /-- A square matrix is needed. -/
  | notSquare (rows cols : Nat)
  /-- A matrix with one more column than rows is needed. -/
  | notAugmented (rows cols : Nat)
  /-- A pivot counts as zero. -/
  | singular
deriving DecidableEq, Repr

/-- A shape as it is written in reports. -/
def shapeText (shape : Nat × Nat) : String :=
  s!"{shape.1}x{shape.2}"

/-- The wording of an error. -/
def Error.message : Error → String
  | .empty => "matrices must have at least one row and one column"
  | .ragged row expected found => s!"row {row} has {found} entries but row 1 has {expected}"
  | .mismatch operation left right =>
    s!"cannot apply {operation.text} to a {shapeText left} and a {shapeText right} matrix"
  | .notSquare rows cols => s!"expected a square matrix but found a {shapeText (rows, cols)} one"
  | .notAugmented rows cols =>
    s!"expected an augmented n x (n+1) matrix but found a {shapeText (rows, cols)} one"
  | .singular => "the system is singular"

/-! ### Making tables -/

variable {α : Type}

/-- The numbers of rows and columns. -/
def shape (t : Table α) : Nat × Nat :=
  (t.rows, t.cols)

/-- Lists of one length have as many elements in all as their number times that length. -/
theorem length_flatten_of_forall {rows : List (List α)} {cols : Nat}
    (h : ∀ row ∈ rows, row.length = cols) : rows.flatten.length = rows.length * cols := by
  induction rows with
  | nil => simp
  | cons row rows ih =>
    have hrow : row.length = cols := h row (by simp)
    have hrows : rows.flatten.length = rows.length * cols :=
      ih fun r hr ↦ h r (List.mem_cons_of_mem _ hr)
    rw [List.flatten_cons, List.length_append, hrow, hrows, List.length_cons, Nat.succ_mul,
      Nat.add_comm]

/-- The table with the given rows. There has to be a first row with an entry, and every row has
to be as long as the first one; the first row that is not is named. -/
def ofRows (rows : List (List α)) : Except Error (Table α) :=
  let cols := (rows.head?.getD []).length
  if cols = 0 then .error .empty
  else if h : ∀ row ∈ rows, row.length = cols then
    .ok ⟨rows.length, cols, ⟨⟨rows.flatten.toArray, by
      rw [List.size_toArray, length_flatten_of_forall h]⟩⟩⟩
  else
    let i := rows.findIdx fun row ↦ row.length ≠ cols
    .error (.ragged (i + 1) cols (rows[i]?.getD []).length)

/-- The table with one entry everywhere. -/
def replicate (rows cols : Nat) (x : α) : Table α :=
  ⟨rows, cols, .replicate rows cols x⟩

/-- The table of the given shape with the given cells, row after row, if there are as many cells
as the shape has. -/
def ofCells? (rows cols : Nat) (cells : List α) : Option (Table α) :=
  if h : cells.length = rows * cols then some ⟨rows, cols, ⟨⟨cells.toArray, h⟩⟩⟩ else none

/-- Rows become columns. -/
def transpose (t : Table α) : Table α :=
  ⟨t.cols, t.rows, t.grid.transpose⟩

/-! ### Looking into tables

Positions are given as plain numbers here and are looked up among the cells as they lie, row
after row: only a position past the last cell is outside. -/

/-- All entries, row after row. -/
def toList (t : Table α) : List α :=
  t.grid.cells.toList

/-- The cell that lies `col` after the first one of row `row`. -/
def cell? (t : Table α) (row col : Nat) : Option α :=
  t.grid.cells[row * t.cols + col]?

/-- The cells of row `row`. -/
def row? (t : Table α) (row : Nat) : Option (List α) :=
  if (row + 1) * t.cols ≤ t.rows * t.cols then
    some ((t.toList.drop (row * t.cols)).take t.cols)
  else none

/-- The elements of a list from the first position up to the second. -/
def slice? {β : Type} (first last : Nat) (xs : List β) : Option (List β) :=
  if first ≤ last ∧ last ≤ xs.length then some ((xs.drop first).take (last - first)) else none

/-- The block of the rows from `top` up to `bottom` and the columns from `left` up to `right`.
The columns are looked at in each row, so in a block without rows they may be anything. -/
def block? (t : Table α) (top bottom left right : Nat) : Option (Table α) := do
  let parts ← (List.range' top (bottom - top)).mapM fun i ↦
    (t.row? i).bind (slice? left right)
  ofCells? (bottom - top) (right - left) parts.flatten

/-! ### The printed form -/

/-- A table of doubles as text: entries divided by one blank, rows by one line feed. -/
def text (t : Table Float) : String :=
  if t.cols = 0 then ""
  else
    String.intercalate "\n" (t.grid.toRows.map fun row ↦
      String.intercalate " " (row.map Number.text))

/-- The pieces in which a table of doubles is written, one after the other: a line feed before each
row but the first, and in a row a blank before each entry but the first. -/
def pieces (t : Table Float) : List String :=
  if t.cols = 0 then []
  else
    (List.intersperse ["\n"] (t.grid.toRows.map fun row ↦
      List.intersperse " " (row.map Number.text))).flatten

/-- Whether two tables of doubles have one shape and compare equal entry by entry. -/
def agrees (s t : Table Float) : Bool :=
  s.shape == t.shape && s.toList == t.toList

end Table

end MatrixScript
