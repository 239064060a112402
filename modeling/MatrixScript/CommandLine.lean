import MatrixScript.SelfTest

/-!
# The command line

What a command does, as a function of its arguments and of the file that they name: the text on
the two output streams and the exit code. Reading the file and writing the streams is left to
the program.
-/

namespace MatrixScript.CommandLine

/-! ### Arguments -/

/-- What the arguments ask for. -/
structure Options where
  /-- How often more messages were asked for. -/
  verbose : Nat := 0
  /-- Whether the banners are left out. -/
  quiet : Bool := false
  /-- The script to run; the self-tests if there is none. -/
  script : Option String := none
deriving DecidableEq, Repr

/-- Why nothing is run. -/
inductive Stop
  /-- Help was asked for. -/
  | help
  /-- The version was asked for. -/
  | version
  /-- An argument has no meaning here. -/
  | unexpected (argument : String)
  /-- The option to be quiet was given twice. -/
  | repeatedQuiet
  /-- The script's name is empty. -/
  | emptyScript
deriving DecidableEq, Repr

/-- Takes an option to be quiet. -/
def setQuiet (o : Options) : Except Stop Options :=
  if o.quiet then .error .repeatedQuiet else .ok { o with quiet := true }

/-- Takes one option of a group of short ones. -/
def takeShort (o : Options) (c : Char) : Except Stop Options :=
  match c with
  | 'v' => .ok { o with verbose := o.verbose + 1 }
  | 'q' => setQuiet o
  | 'h' => .error .help
  | 'V' => .error .version
  | c => .error (.unexpected s!"-{c}")

/-- Takes a long option. -/
def takeLong (o : Options) (argument : String) : Except Stop Options :=
  match argument with
  | "--verbose" => .ok { o with verbose := o.verbose + 1 }
  | "--quiet" => setQuiet o
  | "--help" => .error .help
  | "--version" => .error .version
  | argument => .error (.unexpected argument)

/-- Takes an argument that is no option. -/
def takeScript (o : Options) (argument : String) : Except Stop Options :=
  if o.script.isSome then .error (.unexpected argument)
  else if argument = "" then .error .emptyScript
  else .ok { o with script := some argument }

/-- Takes arguments from left to right. After `--` none of them is an option. -/
def takeAll (o : Options) : List String → Except Stop Options
  | [] => .ok o
  | argument :: rest =>
    match argument.toList with
    | ['-', '-'] => rest.foldlM takeScript o
    | '-' :: '-' :: _ => (takeLong o argument).bind (takeAll · rest)
    | '-' :: c :: cs => ((c :: cs).foldlM takeShort o).bind (takeAll · rest)
    | _ => (takeScript o argument).bind (takeAll · rest)

/-- Reads the arguments. -/
def parse (arguments : List String) : Except Stop Options :=
  takeAll {} arguments

/-! ### Outcomes -/

/-- What a command leaves behind. -/
structure Outcome where
  /-- The text on standard output. -/
  stdout : String := ""
  /-- The text on standard error. -/
  stderr : String := ""
  /-- The exit code. -/
  code : Nat := 0
deriving DecidableEq, Repr

/-- The line that tells how the command is used. -/
def usage : String := "Usage: openmat [OPTIONS] [SCRIPT]\n"

/-- The help text. -/
def helpText : String :=
  "A small scripting language for scalar and matrix arithmetic\n\n" ++ usage ++
  "\nArguments:\n" ++
  "  [SCRIPT]  The script to run. Without one, the built-in self-tests are run instead\n" ++
  "\nOptions:\n" ++
  "  -v, --verbose...  Raises the log level; repeat for more detail\n" ++
  "  -q, --quiet       Does not print the banners around a script's output\n" ++
  "  -h, --help        Print help\n" ++
  "  -V, --version     Print version\n"

/-- The line at the end of a usage error. -/
def moreHelp : String := "\nFor more information, try '--help'.\n"

/-- The advice on an argument that looks like an option. -/
def tip (argument : String) : String :=
  if argument.toList.head? = some '-' then
    s!"  tip: to pass '{argument}' as a value, use '-- {argument}'\n\n"
  else ""

/-- The outcome when nothing is run. -/
def Stop.outcome : Stop → Outcome
  | .help => { stdout := helpText }
  | .version => { stdout := "openmat 0.1.0\n" }
  | .unexpected argument =>
    { stderr := s!"error: unexpected argument '{argument}' found\n\n" ++ tip argument ++ usage ++
        moreHelp
      code := 2 }
  | .repeatedQuiet =>
    { stderr := "error: the argument '--quiet' cannot be used multiple times\n\n" ++ usage ++
        moreHelp
      code := 2 }
  | .emptyScript =>
    { stderr := "error: a value is required for '[SCRIPT]' but none was supplied\n" ++ moreHelp
      code := 2 }

/-- The least important level that is shown. -/
def Options.level (o : Options) : Level :=
  match o.verbose with
  | 0 => .warn
  | 1 => .info
  | 2 => .debug
  | _ => .trace

/-- A message as a line of output. -/
def logLine (level : Level) (n : Note) : String :=
  String.ofList (level.name.toList.rightpad 5 ' ') ++ s!" [{n.component}] {n.message}\n"

/-- What a note shows on standard output. -/
def noteText (limit : Level) (n : Note) : String :=
  match n.level? with
  | none => n.message
  | some level => if n.shownAt limit then logLine level n else ""

/-- What a trail, the latest note first, shows on standard output. -/
def trailText (limit : Level) (trail : List Note) : String :=
  String.join (trail.reverse.map (noteText limit))

/-- Runs the self-tests. -/
def runSelfTests (o : Options) : Outcome :=
  let (result, report) := ({} : SelfTest.Report).addAll
  let stdout := trailText o.level report.trail
  match result with
  | .ok passed => { stdout, code := if passed then 0 else 1 }
  | .error reason =>
    { stdout, stderr := s!"Failed to report self-test results: {reason}\n", code := 1 }

/-- Runs a script. -/
def runSource (o : Options) (source : Source) : Outcome :=
  let (result, session) := ({} : Session).run source
  let banner := fun text ↦ if o.quiet then "" else text
  let shown := banner "Beginning execution\n\n" ++ trailText o.level session.journal.trail
  match result with
  | .ok () => { stdout := shown ++ banner "Execution over\n" }
  | .error e =>
    { stdout := shown
      stderr := String.join (e.diagnostics.map fun d ↦ d.message ++ "\n") ++ e.message ++ "\n"
      code := 1 }

/-- The outcome when a script cannot be opened. -/
def missingFile (path : String) : Outcome :=
  { stderr := s!"Failed to read the input file '{path}'. Perhaps this file does not exist?\n"
    code := 1 }

/-- What a command does in a place where `openFile` gives the files. -/
def perform (openFile : String → Option Source) (arguments : List String) : Outcome :=
  match parse arguments with
  | .error stop => stop.outcome
  | .ok o =>
    match o.script with
    | none => runSelfTests o
    | some path =>
      match openFile path with
      | none => missingFile path
      | some source => runSource o source

end MatrixScript.CommandLine
