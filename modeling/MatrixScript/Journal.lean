import MatrixScript.Call
import MatrixScript.Statement

/-!
# The journal

What happens while a script runs is kept as data. A note is one thing that happened; a journal
holds the diagnostics recorded for the line at hand and the trail of all notes. Notes have
levels, and a reader of the trail decides which levels it shows and how.

What a script prints is on the trail too, so that a reader can show messages and output in the
order in which they came about.

Two messages of the level of traces have no note. One shows the nodes that an expression has been
read into, the other among how many workers a large product is divided. The first of them holds
addresses of functions and the second the number of processors, so they are not the same on two
machines, and nothing else that a script does depends on them.
-/

namespace MatrixScript

/-! ### How a run fails -/

/-- Why a run stopped before the end of its script. -/
inductive RunError
  /-- A line failed; its diagnostics, the most recent one first. -/
  | aborted (line : Nat) (diagnostics : List Diagnostic)
  /-- The script could not be read. -/
  | unreadable (reason : String)
deriving DecidableEq, Repr

namespace RunError

/-- The diagnostics of the failing line. -/
def diagnostics : RunError → List Diagnostic
  | aborted _ ds => ds
  | unreadable _ => []

/-- The wording of a failure. -/
def message : RunError → String
  | aborted line ds => s!"Execution aborted on line {line} with {ds.length} diagnostic(s)."
  | unreadable reason => s!"Failed to read script: {reason}"

/-- A failure as a record. -/
def describe : RunError → String
  | aborted line ds =>
    Text.record "Aborted"
      [("line", toString line), ("diagnostics", Text.bracketed (ds.map Diagnostic.describe))]
  | unreadable reason => s!"Io({Text.quote reason})"

end RunError

/-! ### Notes -/

/-- How much a message matters, the most important level first. -/
inductive Level
  | warn
  | info
  | debug
  | trace
deriving DecidableEq, Repr

namespace Level

/-- The name of a level. -/
def name : Level → String
  | warn => "WARN"
  | info => "INFO"
  | debug => "DEBUG"
  | trace => "TRACE"

/-- The place of a level in the order of importance. -/
def rank : Level → Nat
  | warn => 0
  | info => 1
  | debug => 2
  | trace => 3

end Level

/-- One thing that happened. -/
inductive Note
  /-- A line was cut into words. -/
  | tokenized (line : String) (words : List String)
  /-- Words were recognised as a statement. -/
  | classified (line : Nat) (statement : Statement)
  /-- A call was taken apart. -/
  | divided (text : String) (call : Call)
  /-- A node of an expression was given its value by the builtin that it calls. -/
  | resolved (node : Nat) (name : String) (kind : Kind)
  /-- A diagnostic was recorded. -/
  | recorded (diagnostic : Diagnostic)
  /-- A variable was declared. -/
  | declared (name : String) (kind : Kind)
  /-- A variable was given another value. -/
  | reassigned (name : String) (before after : Kind)
  /-- All variables were given up. -/
  | tornDown (released : Nat)
  /-- A line was begun. -/
  | lineStarted (line : Nat) (text : String)
  /-- A run was begun. -/
  | runStarted (builtins : Nat)
  /-- A run came to the end of its script. -/
  | runFinished (lines released : Nat)
  /-- A run stopped before the end of its script. -/
  | runFailed (error : RunError)
  /-- A text was printed. -/
  | printed (text : String)
deriving DecidableEq, Repr

namespace Note

/-- The level of a note; what a script prints has none. -/
def level? : Note → Option Level
  | tokenized .. | classified .. | divided .. | resolved .. | recorded _ => some .trace
  | declared .. | reassigned .. | tornDown _ | lineStarted .. => some .debug
  | runStarted _ | runFinished .. => some .info
  | runFailed _ => some .warn
  | printed _ => none

/-- The component that a note is shown under. -/
def component : Note → String
  | tokenized .. => "openmat::interpreter::lexer"
  | classified .. => "openmat::interpreter::parser::statement"
  | divided .. => "openmat::interpreter::parser::splitter"
  | resolved .. => "openmat::interpreter::evaluator::resolver"
  | recorded _ => "openmat::error::error_log"
  | declared .. | reassigned .. | tornDown _ => "openmat::interpreter::depot"
  | lineStarted .. | runStarted _ | runFinished .. | runFailed _ =>
    "openmat::interpreter::evaluator::core"
  | printed _ => ""

/-- The wording of a note. -/
def message : Note → String
  | tokenized line words => s!"tokenized {Text.quote line} into {Text.quoteList words}"
  | classified line statement =>
    s!"line {line} classified as {statement.target.describe} of {Text.quote statement.expression}"
  | divided text call =>
    s!"split {Text.quote text} into {Text.quote call.name} with arguments {
      Text.quoteList call.arguments}"
  | resolved _ name kind => s!"{name} resolved to a {kind.text}"
  | recorded d => s!"recorded diagnostic: {d.message}"
  | declared name kind => s!"declared '{name}' as a {kind.text}"
  | reassigned name before after =>
    s!"reassigned '{name}' from a {before.text} to a {after.text}"
  | tornDown released => s!"depot torn down, released {released} binding(s)"
  | lineStarted line text => s!"line {line}: {Text.quote text}"
  | runStarted builtins => s!"running script with {builtins} builtin(s)"
  | runFinished lines released =>
    s!"script finished after {lines} line(s), released {released} variable(s)"
  | runFailed error => error.message
  | printed text => text

/-- Whether a reader that shows messages down to `limit` shows a note. -/
def shownAt (limit : Level) (n : Note) : Bool :=
  n.level?.any (·.rank ≤ limit.rank)

end Note

/-! ### Journals -/

/-- What is on record. -/
structure Journal where
  /-- The diagnostics of the line at hand, in the order in which they were recorded. -/
  diagnostics : List Diagnostic := []
  /-- All notes, the latest one first. -/
  trail : List Note := []
deriving DecidableEq, Repr

namespace Journal

/-- Adds a note. -/
def note (j : Journal) (n : Note) : Journal :=
  { j with trail := n :: j.trail }

/-- Records a diagnostic. -/
def record (j : Journal) (d : Diagnostic) : Journal :=
  { diagnostics := j.diagnostics ++ [d], trail := .recorded d :: j.trail }

/-- Records diagnostics one after the other. -/
def recordAll (j : Journal) (ds : List Diagnostic) : Journal :=
  ds.foldl record j

/-- Forgets the diagnostics. -/
def clear (j : Journal) : Journal :=
  { j with diagnostics := [] }

/-- Takes the diagnostics out, the most recent one first. -/
def drain (j : Journal) : List Diagnostic × Journal :=
  (j.diagnostics.reverse, j.clear)

/-- The notes in the order in which they were made. -/
def history (j : Journal) : List Note :=
  j.trail.reverse

@[simp]
theorem diagnostics_note (j : Journal) (n : Note) : (j.note n).diagnostics = j.diagnostics := rfl

@[simp]
theorem diagnostics_record (j : Journal) (d : Diagnostic) :
    (j.record d).diagnostics = j.diagnostics ++ [d] := rfl

@[simp]
theorem diagnostics_clear (j : Journal) : j.clear.diagnostics = [] := rfl

/-- Recording several diagnostics appends them in order. -/
@[simp]
theorem diagnostics_recordAll (j : Journal) (ds : List Diagnostic) :
    (j.recordAll ds).diagnostics = j.diagnostics ++ ds := by
  unfold recordAll
  induction ds generalizing j with
  | nil => simp
  | cons d ds ih => simp [ih]

/-! ### Reading texts on record

Cutting a line into words, recognising a statement and taking a call apart are functions on
texts. Here each of them leaves its note; failures leave none. -/

/-- Cuts a line into words. -/
def readWords (j : Journal) (line : String) : List String × Journal :=
  (words line, j.note (.tokenized line (words line)))

/-- Recognises a statement. -/
def readStatement (j : Journal) (r : Registry) (line : Nat) (words : List String) :
    Except Diagnostic Statement × Journal :=
  match Statement.ofWords r words with
  | .ok s => (.ok s, j.note (.classified line s))
  | .error e => (.error (e.fault.onLine line), j)

/-- Takes a call apart. -/
def readCall (j : Journal) (line : Nat) (text : String) : Except Diagnostic Call × Journal :=
  match Call.split text with
  | .ok c => (.ok c, j.note (.divided text c))
  | .error e => (.error ((e.fault text).onLine line), j)

end Journal

end MatrixScript
