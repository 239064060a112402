import MatrixScript.Diagnostic

/-!
# Values

What an expression evaluates to: a double or a matrix of doubles.
-/

namespace MatrixScript

/-- The two kinds of value. -/
inductive Kind
  | scalar
  | matrix
deriving DecidableEq, Repr

/-- The name of a kind in reports. -/
def Kind.text : Kind → String
  | .scalar => "scalar"
  | .matrix => "matrix"

/-- The name of a kind where a record shows it. -/
def Kind.describe : Kind → String
  | .scalar => "Scalar"
  | .matrix => "Matrix"

/-- A value of a script. -/
inductive Value
  | scalar (x : Float)
  | matrix (m : Table Float)
deriving DecidableEq

namespace Value

/-- The kind of a value. -/
def kind : Value → Kind
  | scalar _ => .scalar
  | matrix _ => .matrix

/-- The printed form of a value. -/
def text : Value → String
  | scalar x => Number.text x
  | matrix m => m.text

/-- The pieces in which a value is written, one after the other. -/
def pieces : Value → List String
  | scalar x => [Number.text x]
  | matrix m => m.pieces

/-- The fault of a value that is not of the kind in demand. -/
def kindFault (expected found : Kind) : Fault :=
  .typeError s!"expected a {expected.text} but found a {found.text}"

/-- The double that a value is. -/
def toScalar : Value → Except Fault Float
  | scalar x => .ok x
  | matrix _ => .error (kindFault .scalar .matrix)

/-- The matrix that a value is. -/
def toTable : Value → Except Fault (Table Float)
  | matrix m => .ok m
  | scalar _ => .error (kindFault .matrix .scalar)

/-- Whether two values are of one kind and shape and compare equal as doubles do: zero equals
negative zero, and what is not a number equals nothing. -/
def agrees : Value → Value → Bool
  | scalar x, scalar y => x == y
  | matrix s, matrix t => s.agrees t
  | _, _ => false

end Value

end MatrixScript
