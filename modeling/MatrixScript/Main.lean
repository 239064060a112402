import MatrixScript.CommandLine

/-!
# The program

Reads the file that the arguments name and shows what `CommandLine.perform` makes of it.
-/

open MatrixScript

/-- The wording of a failure of the file system. -/
def failureText (e : IO.Error) : String :=
  match e with
  | .inappropriateType _ code details => s!"{details} (os error {code})"
  | e => toString e

/-- Reads an open file to its end. -/
def readSource (handle : IO.FS.Handle) : IO Source := do
  try
    let bytes ← handle.readBinToEnd
    return { bytes := bytes.data.toList }
  catch e =>
    return { bytes := [], failure := some (0, .failed (failureText e)) }

/-- Opens and reads a file; nothing if it cannot be opened. -/
def openSource (path : String) : IO (Option Source) := do
  try
    let handle ← IO.FS.Handle.mk path .read
    return some (← readSource handle)
  catch _ =>
    return none

/-- The file that arguments name, as far as they name one. -/
def sourceFor (arguments : List String) : IO (Option Source) := do
  match CommandLine.parse arguments with
  | .ok { script := some path, .. } => openSource path
  | _ => return none

def main (arguments : List String) : IO UInt32 := do
  let source ← sourceFor arguments
  let outcome := CommandLine.perform (fun _ ↦ source) arguments
  IO.print outcome.stdout
  IO.eprint outcome.stderr
  return outcome.code.toUInt32
