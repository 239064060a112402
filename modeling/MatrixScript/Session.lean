import MatrixScript.Arena
import MatrixScript.Builtin.Standard
import MatrixScript.Sink
import MatrixScript.Source
import MatrixScript.Text.Utf8

/-!
# Sessions

A session carries out the lines of scripts one after the other. It holds the variables, the
journal, the number of the last line and the sink that values are printed to.

A line is read, evaluated and only then carried out, so a line that fails leaves the variables
as they were. All its diagnostics are in the journal afterwards, the returned one as the last.

A run carries out the lines of a source up to the first one that fails or cannot be read, and
gives up all variables at its end, however it ends.
-/

namespace MatrixScript

/-- The state that lines of a script work on. -/
structure Session where
  /-- The builtins that expressions can call. -/
  registry : Registry := .standard
  /-- The variables. -/
  store : Store := .empty
  /-- What is on record. -/
  journal : Journal := {}
  /-- The number of the last line, zero before the first one. -/
  line : Nat := 0
  /-- Where values are printed. -/
  sink : Sink := {}

namespace Session

/-! ### One line -/

/-- Evaluates the text of an expression. -/
def evaluate (s : Session) (text : String) : Except Diagnostic Value × Journal :=
  match Arena.read s.registry s.line s.journal text with
  | (.error d, j) => (.error d, j)
  | (.ok a, j) =>
    let (result, _, j) := a.evaluate s.store s.line j
    (result, j)

/-- The fault of a declaration with a value of another kind. -/
def kindFault (name : String) (declared given : Kind) : Fault :=
  .typeError s!"'{name}' is declared as a {declared.text} but was given a {given.text}"

/-- The session after a change of the store that may have failed. -/
def withStore (s : Session) : Except Store.Error Store × Journal →
    Except Diagnostic Unit × Session
  | (.ok store, journal) => (.ok (), { s with store, journal })
  | (.error e, journal) => (.error (e.fault.onLine s.line), { s with journal })

/-- Prints a value on a line of its own, piece by piece. -/
def print (s : Session) (v : Value) : Except Diagnostic Unit × Session :=
  match s.sink.writeAll (v.pieces ++ ["\n"]) with
  | (.ok (), sink) =>
    (.ok (), { s with sink, journal := s.journal.note (.printed (v.text ++ "\n")) })
  | (.error reason, sink) => (.error ((Fault.outputFailed reason).onLine s.line), { s with sink })

/-- Does with a value what the target says. -/
def carryOut (s : Session) (target : Target) (v : Value) : Except Diagnostic Unit × Session :=
  match target with
  | .declare kind name =>
    if v.kind = kind then s.withStore (s.store.declare s.journal name v)
    else (.error ((kindFault name kind v.kind).onLine s.line), s)
  | .assign name => s.withStore (s.store.assign s.journal name v)
  | .output => s.print v

/-- Reads, evaluates and carries out the statement of a line. -/
def perform (s : Session) (text : String) : Except Diagnostic Unit × Session :=
  let (words, journal) := s.journal.readWords text
  match journal.readStatement s.registry s.line words with
  | (.error d, journal) => (.error d, { s with journal })
  | (.ok statement, journal) =>
    let s := { s with journal }
    match s.evaluate statement.expression with
    | (.error d, journal) => (.error d, { s with journal })
    | (.ok v, journal) => { s with journal }.carryOut statement.target v

/-- The session at the beginning of the next line. -/
def advance (s : Session) (text : String) : Session :=
  { s with
    line := s.line + 1
    journal := s.journal.clear.note (.lineStarted (s.line + 1) text) }

/-- Carries out the next line. -/
def step (s : Session) (text : String) : Except Diagnostic Unit × Session :=
  match (s.advance text).perform text with
  | (.ok (), s) => (.ok (), s)
  | (.error d, s) => (.error d, { s with journal := s.journal.record d })

/-! ### A whole script -/

/-- The reason why a line of bytes cannot be read. -/
def encodingFault (line : Nat) (fault : Text.Utf8.Fault) : String :=
  s!"line {line} is not valid UTF-8: {fault.message}"

/-- The session after a line has failed, with the failure of the run. -/
def abort (s : Session) : Except RunError Unit × Session :=
  let (ds, journal) := s.journal.drain
  (.error (.aborted s.line ds), { s with journal })

/-- Carries out what a reader gets. -/
def runReads (s : Session) : List (Except String (List UInt8)) → Except RunError Unit × Session
  | [] => (.ok (), s)
  | .error reason :: _ => (.error (.unreadable reason), s)
  | .ok bytes :: rest =>
    match Text.Utf8.decode bytes with
    | .error fault => (.error (.unreadable (encodingFault (s.line + 1) fault)), s)
    | .ok text =>
      match s.step text with
      | (.ok (), s) => s.runReads rest
      | (.error _, s) => s.abort

/-- The note on the end of a run. -/
def endNote (s : Session) (released : Nat) : Except RunError Unit → Note
  | .ok () => .runFinished s.line released
  | .error e => .runFailed e

/-- Runs a script. -/
def run (s : Session) (source : Source) : Except RunError Unit × Session :=
  let s := { s with journal := s.journal.note (.runStarted s.registry.names.length) }
  let (result, s) := s.runReads source.reads
  let (released, store, journal) := s.store.release s.journal
  (result, { s with store, journal := journal.note (s.endNote released result) })

end Session

/-- Runs the script in a text in a session of its own. -/
def runText (text : String) (sink : Sink) : Except RunError Unit × Session :=
  ({ sink } : Session).run (.ofString text)

end MatrixScript
