import MatrixScript.Builtin.Registry
import MatrixScript.Table.Operations

/-!
# The standard builtins

The seven functions of the language. Each one checks its arguments itself, so it can be run on
any list of values; called through `Builtin.call`, the first checks have been made already.
-/

namespace MatrixScript.Builtin

/-- The fault of two matrices whose shapes do not go together. -/
def shapeFault (reason : String) (s t : Table Float) : Fault :=
  .dimension s!"{reason}, got {Table.shapeText s.shape} and {Table.shapeText t.shape}"

/-- The sum of two scalars. -/
def addScalars : List Value → Except Fault Value
  | [a, b] => return .scalar ((← a.toScalar) + (← b.toScalar))
  | args => .error (.arity "ADD" 2 args.length)

/-- The product of two scalars. -/
def mulScalars : List Value → Except Fault Value
  | [a, b] => return .scalar ((← a.toScalar) * (← b.toScalar))
  | args => .error (.arity "MUL" 2 args.length)

/-- The sum of two matrices of one shape. -/
def addMatrices : List Value → Except Fault Value
  | [a, b] => do
    let s ← a.toTable
    let t ← b.toTable
    if s.shape ≠ t.shape then .error (shapeFault "MAT_ADD needs equal shapes" s t)
    else return .matrix (← (s.add t).mapError Table.Error.fault)
  | args => .error (.arity "MAT_ADD" 2 args.length)

/-- A matrix multiplied by a scalar. The matrix is looked at first. -/
def scaleMatrix : List Value → Except Fault Value
  | [a, b] => do
    let t ← b.toTable
    let x ← a.toScalar
    return .matrix (t.scale x)
  | args => .error (.arity "SCAL_MUL" 2 args.length)

/-- The product of two matrices. -/
def mulMatrices : List Value → Except Fault Value
  | [a, b] => do
    let s ← a.toTable
    let t ← b.toTable
    if s.cols ≠ t.rows then
      .error (shapeFault "MAT_MUL needs the left column count to match the right row count" s t)
    else return .matrix (← (s.mul t).mapError Table.Error.fault)
  | args => .error (.arity "MAT_MUL" 2 args.length)

/-- A matrix with rows and columns exchanged. -/
def transposeMatrix : List Value → Except Fault Value
  | [a] => return .matrix (← a.toTable).transpose
  | args => .error (.arity "TRAN" 1 args.length)

/-- The solution of a system of equations, given as an augmented matrix. -/
def solveSystem : List Value → Except Fault Value
  | [a] => do
    let t ← a.toTable
    if t.cols ≠ t.rows + 1 then
      .error (.dimension
        s!"SOLVE needs an augmented n x (n+1) matrix, got {Table.shapeText t.shape}")
    else return .matrix (← t.solve.mapError Table.Error.fault)
  | args => .error (.arity "SOLVE" 1 args.length)

/-- The standard builtins in order. -/
def standard : List Builtin :=
  [ofFunction "ADD" [.scalar, .scalar] .scalar addScalars,
    ofFunction "MUL" [.scalar, .scalar] .scalar mulScalars,
    ofFunction "MAT_ADD" [.matrix, .matrix] .matrix addMatrices,
    ofFunction "SCAL_MUL" [.scalar, .matrix] .matrix scaleMatrix,
    ofFunction "MAT_MUL" [.matrix, .matrix] .matrix mulMatrices,
    ofFunction "TRAN" [.matrix] .matrix transposeMatrix,
    ofFunction "SOLVE" [.matrix] .matrix solveSystem]

end MatrixScript.Builtin

namespace MatrixScript.Registry

/-- The registry of the standard builtins. -/
def standard : Registry :=
  empty.insertAll Builtin.standard

end MatrixScript.Registry
