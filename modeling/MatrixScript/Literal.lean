import MatrixScript.Number.Decimal
import MatrixScript.Word

/-!
# Literals

A literal is a numeral or a matrix: rows divided by semicolons between square brackets, the
cells of a row divided by commas, every cell a numeral. Blanks have no place in a literal.

A matrix is read in three steps, and the first one that fails gives the fault: the closing
bracket, the cells from left to right and from top to bottom, the lengths of the rows.
-/

namespace MatrixScript.Literal

/-- Why a text is no literal. -/
inductive Error
  /-- A matrix does not end with its bracket. -/
  | unclosed (text : String)
  /-- A numeral or a cell is not a number. -/
  | notNumber (cell : String)
  /-- The rows do not make a matrix. -/
  | shape (error : Table.Error)
deriving DecidableEq, Repr

/-- The fault of a text that is no literal. -/
def Error.fault : Error → Fault
  | .unclosed text => .syntaxError s!"matrix literal '{text}' is missing its closing ']'"
  | .notNumber cell => .syntaxError s!"'{cell}' is not a number"
  | .shape error => error.fault

/-- Reads a numeral. -/
def readNumber (cs : List Char) : Except Error Float :=
  match Number.read? cs with
  | some x => .ok x
  | none => .error (.notNumber (String.ofList cs))

/-- The cells of a matrix, row by row, from the text between its brackets. -/
def cells (body : List Char) : List (List (List Char)) :=
  (Text.pieces (· == ';') body).map (Text.pieces (· == ','))

/-- The text before the closing bracket that ends it. -/
def beforeBracket? (cs : List Char) : Option (List Char) :=
  if cs.getLast? = some ']' then some cs.dropLast else none

/-- Reads a matrix, given the text after its opening bracket. -/
def readMatrix (rest : List Char) : Except Error (Table Float) := do
  let some body := beforeBracket? rest
    | .error (.unclosed (String.ofList ('[' :: rest)))
  let rows ← (cells body).mapM fun row ↦ row.mapM readNumber
  (Table.ofRows rows).mapError .shape

/-- Reads a literal. -/
def read (text : String) : Except Error Value :=
  match text.toList with
  | '[' :: rest => (readMatrix rest).map .matrix
  | cs => (readNumber cs).map .scalar

end MatrixScript.Literal
