import MatrixScript.Table.Basic
import MatrixScript.Text.Record

/-!
# Diagnostics

A fault is something that a script did wrong, and a diagnostic is a fault on a line. Readers of
texts and functions on values know faults only; the line comes in where they are called from.

There are nine kinds of fault. Three of them carry a text that says more, worded where the
fault is found; the wording of everything else is here.
-/

namespace MatrixScript

/-- What a script did wrong. -/
inductive Fault
  /-- A statement or an expression is not well formed. -/
  | syntaxError (details : String)
  /-- A call names no registered function. -/
  | unknownFunction (name : String)
  /-- A call has the wrong number of arguments. -/
  | arity (name : String) (expected found : Nat)
  /-- A value is of the wrong kind. -/
  | typeError (details : String)
  /-- The dimensions of matrices do not fit. -/
  | dimension (details : String)
  /-- A variable is used that has not been declared. -/
  | undeclared (name : String)
  /-- A variable is declared a second time. -/
  | redeclared (name : String)
  /-- A system of equations has no unique solution. -/
  | singular
  /-- A value could not be printed. -/
  | outputFailed (details : String)
deriving DecidableEq, Repr

/-- The nine kinds of fault. -/
inductive FaultKind
  | syntaxError
  | unknownFunction
  | arity
  | typeError
  | dimension
  | undeclared
  | redeclared
  | singular
  | outputFailed
deriving DecidableEq, Repr

namespace FaultKind

/-- Every kind. -/
def all : List FaultKind :=
  [syntaxError, unknownFunction, arity, typeError, dimension, undeclared, redeclared, singular,
    outputFailed]

/-- The name of a kind in reports. -/
def name : FaultKind → String
  | syntaxError => "SyntaxError"
  | unknownFunction => "UnknownFunction"
  | arity => "ArityError"
  | typeError => "TypeError"
  | dimension => "DimensionError"
  | undeclared => "UndeclaredVariable"
  | redeclared => "DuplicateDeclaration"
  | singular => "SingularSystem"
  | outputFailed => "OutputFailed"

/-- The kind with the given name. -/
def ofName? (name : String) : Option FaultKind :=
  all.find? (·.name = name)

end FaultKind

namespace Fault

/-- The kind of a fault. -/
def kind : Fault → FaultKind
  | syntaxError _ => .syntaxError
  | unknownFunction _ => .unknownFunction
  | arity .. => .arity
  | typeError _ => .typeError
  | dimension _ => .dimension
  | undeclared _ => .undeclared
  | redeclared _ => .redeclared
  | singular => .singular
  | outputFailed _ => .outputFailed

/-- The wording of a fault. -/
def message : Fault → String
  | syntaxError details => s!"Syntax error: {details}."
  | unknownFunction name => s!"Unknown function '{name}'."
  | arity name expected found =>
    s!"Function '{name}' expects {expected} argument(s) but was given {found}."
  | typeError details => s!"Type error: {details}."
  | dimension details => s!"Dimension error: {details}."
  | undeclared name => s!"Undeclared variable '{name}'."
  | redeclared name => s!"Variable '{name}' is already declared."
  | singular => "The system is singular and has no unique solution."
  | outputFailed details => s!"Failed to write output: {details}."

/-- What a fault carries, field by field. -/
def fields : Fault → List (String × String)
  | syntaxError details | typeError details | dimension details | outputFailed details =>
    [("details", Text.quote details)]
  | unknownFunction name | undeclared name | redeclared name => [("name", Text.quote name)]
  | arity name expected found =>
    [("name", Text.quote name), ("expected", toString expected), ("found", toString found)]
  | singular => []

end Fault

/-- The fault that an error of a matrix operation is in a script. -/
def Table.Error.fault : Table.Error → Fault
  | .singular => .singular
  | e => .dimension e.message

/-- A fault on a line. -/
structure Diagnostic where
  /-- The line, counted from one. -/
  line : Nat
  /-- What is wrong there. -/
  fault : Fault
deriving DecidableEq, Repr

/-- A fault as a diagnostic of the given line. -/
def Fault.onLine (fault : Fault) (line : Nat) : Diagnostic :=
  ⟨line, fault⟩

namespace Diagnostic

/-- The wording of a diagnostic. -/
def message (d : Diagnostic) : String :=
  s!"Error on line {d.line}: {d.fault.message}"

/-- A diagnostic as a record. -/
def describe (d : Diagnostic) : String :=
  Text.record d.fault.kind.name (d.fault.fields ++ [("line", toString d.line)])

end Diagnostic

end MatrixScript
