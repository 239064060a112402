import MatrixScript.Number.Rounding
import MatrixScript.Number.Binary64
import MatrixScript.Number.Decimal
import MatrixScript.Number.Fixed
import MatrixScript.Number.Arith
import MatrixScript.Machine
import MatrixScript.Grid.Basic
import MatrixScript.Grid.Product
import MatrixScript.Grid.Elimination
import MatrixScript.Table.Basic
import MatrixScript.Table.Operations
import MatrixScript.Text.Pieces
import MatrixScript.Text.Hidden
import MatrixScript.Text.Quoted
import MatrixScript.Text.Record
import MatrixScript.Text.Utf8
import MatrixScript.Diagnostic
import MatrixScript.Value
import MatrixScript.Word
import MatrixScript.Literal
import MatrixScript.Call
import MatrixScript.Builtin.Basic
import MatrixScript.Builtin.Registry
import MatrixScript.Builtin.Standard
import MatrixScript.Statement
import MatrixScript.Journal
import MatrixScript.Attempt
import MatrixScript.Term
import MatrixScript.Store
import MatrixScript.Arena
import MatrixScript.Sink
import MatrixScript.Source
import MatrixScript.Session
import MatrixScript.SelfTest
import MatrixScript.CommandLine
import MatrixScript.Main
import MatrixScript.Proofs.Basis
import MatrixScript.Proofs.Joining
import MatrixScript.Proofs.Call
import MatrixScript.Proofs.Outline
import MatrixScript.Proofs.Report
import MatrixScript.Proofs.Reading
import MatrixScript.Proofs.Denotation
import MatrixScript.Proofs.Writing
import MatrixScript.Proofs.Effect
import MatrixScript.Proofs.Grammar
import MatrixScript.Proofs.Shape
import MatrixScript.Proofs.Evaluation
import MatrixScript.Proofs.Invariant
import MatrixScript.Proofs.Memoisation
import MatrixScript.Proofs.Builtin
import MatrixScript.Proofs.Retry
import MatrixScript.Proofs.Dissection
import MatrixScript.Proofs.Failures
import MatrixScript.Proofs.Record
import MatrixScript.Proofs.RecordOrder
import MatrixScript.Proofs.Lines
import MatrixScript.Proofs.Run
import MatrixScript.Proofs.Encoding
import MatrixScript.Proofs.Words
import MatrixScript.Proofs.Statement
import MatrixScript.Proofs.Names
import MatrixScript.Proofs.Argument
import MatrixScript.Proofs.Solution
import MatrixScript.Proofs.Truncation
import MatrixScript.Proofs.Naming
import MatrixScript.Proofs.Commutation
import MatrixScript.Proofs.Bands
import MatrixScript.Proofs.BufferElimination
import MatrixScript.Proofs.Extent
import MatrixScript.Proofs.Checked
import MatrixScript.Proofs.CheckedRun
import MatrixScript.Proofs.Rounds
import MatrixScript.Proofs.Nearest
import MatrixScript.Proofs.Numeral
import MatrixScript.Proofs.Double
import MatrixScript.Proofs.DoubleRounding
import MatrixScript.Proofs.DoubleArithmetic
import MatrixScript.Proofs.Refusal
import MatrixScript.Proofs.Triangular
import MatrixScript.Proofs.Determinant
import MatrixScript.Proofs.Scaling
import MatrixScript.Proofs.Product
import MatrixScript.Proofs.MatrixLiteral
import MatrixScript.Proofs.Closest
import MatrixScript.Proofs.Printed
