import MatrixScript.Session

/-!
# Self-tests

Small scripts with what they are expected to do, and a report on whether they do it.
-/

namespace MatrixScript.SelfTest

/-- What a script is expected to do. -/
inductive Expected
  /-- To run to its end and print this. -/
  | output (text : String)
  /-- To stop on a line, the most recent diagnostic being of this kind. -/
  | abort (kind : FaultKind) (line : Nat)
deriving DecidableEq, Repr

/-- What is expected, as a record. -/
def Expected.describe : Expected → String
  | .output text => s!"Output({Text.quote text})"
  | .abort kind line => Text.record "Abort" [("kind", kind.name), ("line", toString line)]

/-- One test. -/
structure Test where
  /-- What the test is about. -/
  name : String
  /-- The script. -/
  script : String
  /-- What the script is expected to do. -/
  expected : Expected
deriving DecidableEq, Repr

/-- The result of a run as a record. -/
def describeResult : Except RunError Unit → String
  | .ok () => "Ok(())"
  | .error e => s!"Err({e.describe})"

/-- How a run differs from what was expected; nothing if it does not. -/
def mismatch? (expected : Expected) (result : Except RunError Unit) (printed : String) :
    Option String :=
  match expected, result with
  | .output text, .ok () =>
    if printed = text then none
    else some s!"expected output {Text.quote text}, got {Text.quote printed}"
  | .abort kind line, .error (.aborted found ds) =>
    if found = line ∧ ds.head?.map (·.fault.kind) = some kind then none
    else some s!"expected {expected.describe}, got {describeResult result}"
  | expected, result => some s!"expected {expected.describe}, got {describeResult result}"

/-- Runs a test. Gives the mismatch, if there is one, and the journal of the run. -/
def Test.run (t : Test) : Option String × Journal :=
  let (result, session) := runText t.script {}
  (mismatch? t.expected result (session.sink.textFrom 0), session.journal)

/-- The tests. -/
def suite : List Test := [
  ⟨"scalar declaration", "NUM x = 5\nOUT = x\n", .output "5.000000\n"⟩,
  ⟨"nested scalar calls", "NUM y = ADD(MUL(2,3),4)\nOUT = y\n", .output "10.000000\n"⟩,
  ⟨"reassignment", "NUM x = 1\nx = ADD(x,x)\nOUT = x\n", .output "2.000000\n"⟩,
  ⟨"matrix output", "MAT m = [1,2;3,4]\nOUT = m\n",
    .output "1.000000 2.000000\n3.000000 4.000000\n"⟩,
  ⟨"matrix add", "OUT = MAT_ADD([1,2;3,4],[4,3;2,1])\n",
    .output "5.000000 5.000000\n5.000000 5.000000\n"⟩,
  ⟨"scalar multiply", "OUT = SCAL_MUL(2,[1,-1])\n", .output "2.000000 -2.000000\n"⟩,
  ⟨"matrix multiply", "OUT = MAT_MUL([1,2;3,4],[5;6])\n", .output "17.000000\n39.000000\n"⟩,
  ⟨"transpose", "OUT = TRAN([1,2,3])\n", .output "1.000000\n2.000000\n3.000000\n"⟩,
  ⟨"solve", "OUT = SOLVE([2,1,5;1,-1,1])\n", .output "2.000000\n1.000000\n"⟩,
  ⟨"depot keeps variables across lines",
    "MAT a = [1,0;0,1]\nNUM s = 3\nMAT b = SCAL_MUL(s,a)\nOUT = MAT_MUL(b,a)\n",
    .output "3.000000 0.000000\n0.000000 3.000000\n"⟩,
  ⟨"undeclared reassignment", "x = 3\n", .abort .undeclared 1⟩,
  ⟨"duplicate declaration", "MAT m = [1,2;3,4]\nMAT m = [5,6;7,8]\n", .abort .redeclared 2⟩,
  ⟨"missing equals", "NUM x = 1\nMAT z 5\n", .abort .syntaxError 2⟩,
  ⟨"unknown function", "NUM x = POW(2,3)\n", .abort .unknownFunction 1⟩,
  ⟨"wrong arity", "NUM x = ADD(1,2,3)\n", .abort .arity 1⟩,
  ⟨"scalar where matrix expected", "MAT m = TRAN(5)\n", .abort .typeError 1⟩,
  ⟨"declared kind mismatch", "NUM x = [1,2]\n", .abort .typeError 1⟩,
  ⟨"mismatched shapes", "OUT = MAT_ADD([1,2],[1;2])\n", .abort .dimension 1⟩,
  ⟨"ragged literal", "MAT m = [1,2;3]\n", .abort .dimension 1⟩,
  ⟨"singular system", "OUT = SOLVE([1,2,3;2,4,6])\n", .abort .singular 1⟩,
  ⟨"empty line", "NUM x = 1\n\nOUT = x\n", .abort .syntaxError 2⟩]

/-! ### The report -/

/-- A report under way: where it is written and what has happened so far. -/
structure Report where
  /-- Where the report is written. -/
  sink : Sink := {}
  /-- All notes, the latest one first. -/
  trail : List Note := []

/-- Writes a text into a report. -/
def Report.write (r : Report) (text : String) : Except String Unit × Report :=
  match r.sink.write text with
  | (.ok (), sink) => (.ok (), ⟨sink, .printed text :: r.trail⟩)
  | (.error reason, sink) => (.error reason, { r with sink })

/-- The line of a report on one test. -/
def verdictLine (name : String) : Option String → String
  | none => s!"PASS  {name}\n"
  | some reason => s!"FAIL  {name}: {reason}\n"

/-- What a report takes over from the journal of a test: everything but the output of its script,
which has gone to a sink of its own. -/
def messages (j : Journal) : List Note :=
  j.trail.filter (·.level?.isSome)

/-- Runs tests and reports on each of them. Gives the number of those that failed, on top of the
ones that failed before. -/
def Report.addTests (r : Report) (failed : Nat) : List Test → Except String Nat × Report
  | [] => (.ok failed, r)
  | t :: ts =>
    let (mismatch, journal) := t.run
    let r := { r with trail := messages journal ++ r.trail }
    match r.write (verdictLine t.name mismatch) with
    | (.error reason, r) => (.error reason, r)
    | (.ok (), r) => r.addTests (if mismatch.isSome then failed + 1 else failed) ts

/-- The last line of a report. -/
def summary (failed total : Nat) : String :=
  s!"\n{total - failed} passed, {failed} failed, {total} total\n"

/-- Runs all tests and reports on them. Tells whether every test passed. -/
def Report.addAll (r : Report) : Except String Bool × Report :=
  match r.addTests 0 suite with
  | (.error reason, r) => (.error reason, r)
  | (.ok failed, r) =>
    match r.write (summary failed suite.length) with
    | (.error reason, r) => (.error reason, r)
    | (.ok (), r) => (.ok (failed == 0), r)

end MatrixScript.SelfTest
